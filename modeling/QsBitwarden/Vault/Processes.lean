import QsBitwarden.Lib.Table
import QsBitwarden.Lib.Trace
import QsBitwarden.Vault.Helper

/-!
# Vault — processes, threads and locks (`vault/src/main.rs`)

The helper starts commands on its request loop, follows each on a thread of its own, and signals
process groups from two kinds of thread. `Helper` says what a request does to the store; here it is
what the threads do to each other, with a step for each thing that another thread or the operating
system can come before.

* **`Child`** — a process started by the helper, with how far its own thread is: the last stage
  but one is when it was reaped, and its process id is the system's again.
* **`Machine`** — the children, the list of runs and the entry of the auto-type, and where the
  request loop and the delayed stops are. A lock is held while a thread is inside the piece of
  code that holds it (`runsLocked`, `Loop.holdsTyping`).
* **`Step`** — one step of any thread, or of the system; with the signal it sent, if any.
-/

namespace QsBitwarden.Vault.Processes

/-! ## Children -/

/-- What a child was started for. -/
inductive Purpose where
  | run (id : Nat)
  | typing
  /-- A detached command or a clipboard copy. Nothing lists it. -/
  | aside
  deriving DecidableEq

/-- How far the thread that follows a child is. -/
inductive Stage where
  /-- Only the request loop knows the child yet. -/
  | spawned
  /-- Its output is read (`drain`), or its text written. -/
  | working
  | ended
  /-- `waitid` with `NOWAIT` has returned: the child is dead and not reaped. -/
  | waited
  /-- Its entry was removed. -/
  | unlisted
  | reaped
  /-- The auto-type's slot was given back. -/
  | closed
  deriving DecidableEq

namespace Stage

/-- The child still occupies its process id. -/
def unreaped : Stage → Bool
  | .reaped | .closed => false
  | _ => true

/-- The child's thread has begun, and has not removed its entry. -/
def listed : Stage → Bool
  | .working | .ended | .waited => true
  | _ => false

end Stage

structure Child where
  /-- Also its process group: every child is started with `process_group(0)`. -/
  pid : Nat
  purpose : Purpose
  exited : Bool
  stage : Stage
  deriving DecidableEq

/-- The child, with its thread further on. -/
def Child.reach (child : Child) (stage : Stage) : Child := { child with stage }

/-! ## Threads -/

inductive Signal where
  | term
  | kill
  deriving DecidableEq

/-- Where the request loop is. -/
inductive Loop where
  | idle
  /-- `exec` has made its checks. -/
  | spawning (id : Nat)
  /-- …and spawned the child; next is `runs.insert`. -/
  | listing (id serial : Nat)
  /-- `Kill`, with the list locked. -/
  | killing (id : Nat)
  /-- …and the group signalled; next the lock is dropped. -/
  | killed (id group : Nat)
  /-- `auto_type` has the slot. -/
  | claimed
  /-- …and spawned `wtype`; next is `typing_group`. -/
  | entering (serial : Nat)
  /-- `stop_typing`, with the entry locked and taken. -/
  | stopping (group : Option Nat) (atEnd : Bool)
  /-- The end of input: next the list is locked for this signal. -/
  | ending (signal : Signal)
  /-- …and these groups are left to signal; `any` is whether the list had one. -/
  | signalling (signal : Signal) (groups : List Nat) (any : Bool)
  | finished
  deriving DecidableEq

namespace Loop

def holdsRuns : Loop → Bool
  | .killing _ | .killed .. | .signalling .. => true
  | _ => false

def holdsTyping : Loop → Bool
  | .stopping .. => true
  | _ => false

end Loop

/-- A thread of `stop_group`. -/
inductive Stopper where
  | sleeping (id group : Nat)
  /-- The list is locked and has the group under this id. -/
  | found (id group : Nat)
  | done
  deriving DecidableEq

def Stopper.holdsRuns : Stopper → Bool
  | .found .. => true
  | _ => false

/-! ## The machine -/

structure Machine where
  /-- Every child so far, by the order it was spawned in. -/
  children : Table Nat Child
  spawned : Nat
  /-- The process ids of processes that are not the helper's children. -/
  others : List Nat
  /-- Run id to process group. -/
  runs : Table Nat Nat
  /-- The count of the auto-type's `Slot`. -/
  typing : Nat
  typingGroup : Option Nat
  loop : Loop
  stoppers : List Stopper

namespace Machine

def new : Machine := ⟨∅, 0, [], ∅, 0, none, .idle, []⟩

variable (m : Machine)

/-- The system may give this process id to a new process. -/
def Free (pid : Nat) : Prop :=
  pid ∉ m.others ∧ ∀ serial child, m.children.lookup serial = some child →
    child.stage.unreaped = true → child.pid ≠ pid

def runsLocked : Bool := m.loop.holdsRuns || m.stoppers.any (·.holdsRuns)

/-- The process groups of the list. -/
def groups : List Nat := m.runs.entries.map (·.2)

def put (serial : Nat) (child : Child) : Machine :=
  { m with children := m.children.insert serial child }

/-- A new child. -/
def start (pid : Nat) (purpose : Purpose) (stage : Stage) : Machine :=
  { m.put m.spawned ⟨pid, purpose, false, stage⟩ with spawned := m.spawned + 1 }

/-- After `stop_typing`: the next request, or the runs. -/
def stopped (atEnd : Bool) : Machine :=
  { m with loop := if atEnd then .ending .term else .idle }

/-- After the groups were signalled: the sleep before SIGKILL, if there was any, and the end. -/
def signalled (signal : Signal) (any : Bool) : Machine :=
  { m with loop := if signal = .term && any then .ending .kill else .finished }

end Machine

/-- One step, and the group it signals. -/
inductive Step : Machine → Option (Nat × Signal) → Machine → Prop where
  -- The system: other processes come and go, and a child may die at any time.
  | otherStarts {m : Machine} {pid : Nat} (hfree : m.Free pid) :
      Step m none { m with others := pid :: m.others }
  | otherEnds {m : Machine} (pid : Nat) :
      Step m none { m with others := m.others.filter (· ≠ pid) }
  | exits {m : Machine} {serial : Nat} {child : Child}
      (hchild : m.children.lookup serial = some child) :
      Step m none (m.put serial { child with exited := true })
  -- `exec`. A refused request changes nothing.
  | exec {m : Machine} {id : Nat} (hloop : m.loop = .idle) (hlock : m.runsLocked = false)
      (hroom : m.runs.entries.length < maxRuns) (hid : id ∉ m.runs) :
      Step m none { m with loop := .spawning id }
  | spawnFails {m : Machine} {id : Nat} (hloop : m.loop = .spawning id) :
      Step m none { m with loop := .idle }
  | spawns {m : Machine} {id pid : Nat} (hloop : m.loop = .spawning id) (hfree : m.Free pid) :
      Step m none { m.start pid (.run id) .spawned with loop := .listing id m.spawned }
  | lists {m : Machine} {id serial : Nat} {child : Child} (hloop : m.loop = .listing id serial)
      (hchild : m.children.lookup serial = some child) (hlock : m.runsLocked = false) :
      Step m none { m.put serial (child.reach .working) with
        runs := m.runs.insert id child.pid, loop := .idle }
  | startsAside {m : Machine} {pid : Nat} (hloop : m.loop = .idle) (hfree : m.Free pid) :
      Step m none (m.start pid .aside .working)
  -- `Kill`
  | kill {m : Machine} (id : Nat) (hloop : m.loop = .idle) (hlock : m.runsLocked = false) :
      Step m none { m with loop := .killing id }
  | killMisses {m : Machine} {id : Nat} (hloop : m.loop = .killing id)
      (hrun : m.runs.lookup id = none) : Step m none { m with loop := .idle }
  | killSignals {m : Machine} {id group : Nat} (hloop : m.loop = .killing id)
      (hrun : m.runs.lookup id = some group) :
      Step m (some (group, .term)) { m with loop := .killed id group }
  | killEnds {m : Machine} {id group : Nat} (hloop : m.loop = .killed id group) :
      Step m none { m with loop := .idle, stoppers := m.stoppers ++ [.sleeping id group] }
  -- `stop_group`: `at'` is the thread's place among them.
  | stopperFinds {m : Machine} {at' id group : Nat}
      (hstopper : m.stoppers[at']? = some (.sleeping id group)) (hlock : m.runsLocked = false)
      (hrun : m.runs.lookup id = some group) :
      Step m none { m with stoppers := m.stoppers.set at' (.found id group) }
  | stopperMisses {m : Machine} {at' id group : Nat}
      (hstopper : m.stoppers[at']? = some (.sleeping id group)) (hlock : m.runsLocked = false)
      (hrun : m.runs.lookup id ≠ some group) :
      Step m none { m with stoppers := m.stoppers.set at' .done }
  | stopperSignals {m : Machine} {at' id group : Nat}
      (hstopper : m.stoppers[at']? = some (.found id group)) :
      Step m (some (group, .kill)) { m with stoppers := m.stoppers.set at' .done }
  -- `auto_type`. A text it refuses gives the slot back, as a failed spawn does.
  | claims {m : Machine} (hloop : m.loop = .idle) (hslot : m.typing < 1) :
      Step m none { m with typing := m.typing + 1, loop := .claimed }
  | typeFails {m : Machine} (hloop : m.loop = .claimed) :
      Step m none { m with typing := m.typing - 1, loop := .idle }
  | typeSpawns {m : Machine} {pid : Nat} (hloop : m.loop = .claimed) (hfree : m.Free pid) :
      Step m none { m.start pid .typing .spawned with loop := .entering m.spawned }
  | enters {m : Machine} {serial : Nat} {child : Child} (hloop : m.loop = .entering serial)
      (hchild : m.children.lookup serial = some child) :
      Step m none { m.put serial (child.reach .working) with
        typingGroup := some child.pid, loop := .idle }
  -- `stop_typing`: at a `forget`, and when the input has ended.
  | stopTyping {m : Machine} (atEnd : Bool) (hloop : m.loop = .idle) :
      Step m none { m with typingGroup := none, loop := .stopping m.typingGroup atEnd }
  | stopMisses {m : Machine} {atEnd : Bool} (hloop : m.loop = .stopping none atEnd) :
      Step m none (m.stopped atEnd)
  | stopSignals {m : Machine} {group : Nat} {atEnd : Bool}
      (hloop : m.loop = .stopping (some group) atEnd) :
      Step m (some (group, .kill)) (m.stopped atEnd)
  -- The end of input.
  | endLocks {m : Machine} {signal : Signal} (hloop : m.loop = .ending signal)
      (hlock : m.runsLocked = false) :
      Step m none { m with loop := .signalling signal m.groups !m.runs.entries.isEmpty }
  | endSignals {m : Machine} {signal : Signal} {group : Nat} {groups : List Nat} {any : Bool}
      (hloop : m.loop = .signalling signal (group :: groups) any) :
      Step m (some (group, signal)) { m with loop := .signalling signal groups any }
  | endUnlocks {m : Machine} {signal : Signal} {any : Bool}
      (hloop : m.loop = .signalling signal [] any) : Step m none (m.signalled signal any)
  -- The threads that follow a child: `run`, `feed_and_wait`, and the bare `wait` of a child that
  -- nothing lists.
  | ends {m : Machine} {serial : Nat} {child : Child}
      (hchild : m.children.lookup serial = some child) (hpurpose : child.purpose ≠ .aside)
      (hstage : child.stage = .working) : Step m none (m.put serial (child.reach .ended))
  | waits {m : Machine} {serial : Nat} {child : Child}
      (hchild : m.children.lookup serial = some child) (hstage : child.stage = .ended)
      (hexited : child.exited = true) : Step m none (m.put serial (child.reach .waited))
  | unlistsRun {m : Machine} {serial id : Nat} {child : Child}
      (hchild : m.children.lookup serial = some child) (hpurpose : child.purpose = .run id)
      (hstage : child.stage = .waited) (hlock : m.runsLocked = false) :
      Step m none { m.put serial (child.reach .unlisted) with runs := m.runs.erase id }
  | unlistsTyping {m : Machine} {serial : Nat} {child : Child}
      (hchild : m.children.lookup serial = some child) (hpurpose : child.purpose = .typing)
      (hstage : child.stage = .waited) (hlock : m.loop.holdsTyping = false) :
      Step m none { m.put serial (child.reach .unlisted) with typingGroup := none }
  | reaps {m : Machine} {serial : Nat} {child : Child}
      (hchild : m.children.lookup serial = some child)
      (hstage : child.stage = .unlisted ∨ child.purpose = .aside ∧ child.stage = .working)
      (hexited : child.exited = true) : Step m none (m.put serial (child.reach .reaped))
  | closes {m : Machine} {serial : Nat} {child : Child}
      (hchild : m.children.lookup serial = some child) (hpurpose : child.purpose = .typing)
      (hstage : child.stage = .reaped) :
      Step m none { m.put serial (child.reach .closed) with typing := m.typing - 1 }

/-- Any interleaving. The records are the signals sent. -/
def system : Trace.System Machine (Option (Nat × Signal)) where
  init m := m = .new
  step _ := Step

end QsBitwarden.Vault.Processes
