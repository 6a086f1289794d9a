import Mathlib.Logic.Function.Basic
import QsBitwarden.Lib.Trace
import QsBitwarden.Panel.VaultProcess

/-!
# Panel — reads of the vault (`Service.qml`)

Five readers, each with one `VaultProcess` and one stamp: the vault epoch its last read was begun in.
An answer is refused if the epoch has moved since the stamp.

* **`Readers`** — the epoch, the stamps, the processes and what the panel shows.
* **`loadItems`**, **`setFormOrganization`**, **`openDetail`** and the rest begin reads;
  **`onExited`** takes their answers.
* **`dropVaultState`** — a lock, logout or account switch, with the scrub of the collectors.
* **`step`** — one event, with the runs it starts and ends and the answers it takes.
-/

namespace QsBitwarden.Panel.Reads

/-! ## Readers and requests -/

inductive Reader where
  | items
  | organizations
  | folders
  | collections
  | detail
  deriving DecidableEq

def Reader.all : List Reader := [.items, .organizations, .folders, .collections, .detail]

theorem Reader.mem_all (r : Reader) : r ∈ Reader.all := by cases r <;> decide

inductive Request where
  | items
  | organizations
  | folders
  | collections (orgId : String)
  | detail (itemId : String)
  deriving DecidableEq

/-- What a step does that can be seen from outside the panel. -/
inductive Signal where
  /-- A command is handed over to be run. -/
  | started (r : Reader) (command : Command Request)
  /-- The end of a run is reported. -/
  | exited (r : Reader)
  /-- The panel takes the reader's data from this text. -/
  | read (r : Reader) (text : String)
  deriving DecidableEq

structure Readers where
  vaultEpoch : Nat
  /-- There is a session. -/
  session : Bool
  /-- The status is `unlocked`. -/
  unlocked : Bool
  /-- None is no stamp, which is never the epoch. -/
  readEpochs : Reader → Option Nat
  formOrgId : String
  procs : Reader → VaultProcess Request
  helper : Helper
  scrubPending : Reader → Bool
  listReadEarly : Bool
  listAgentBranchActive : Bool
  listRetriedWithoutAgent : Bool
  /-- The text `items`, `organizations`, `folders`, `formCollections` and `detailItem` were taken
  from; none once they are emptied or set from a row of the list. -/
  taken : Reader → Option String

namespace Readers

def new : Readers where
  vaultEpoch := 0
  session := false
  unlocked := false
  readEpochs _ := none
  formOrgId := ""
  procs _ := .new
  helper := .awaited
  scrubPending _ := false
  listReadEarly := false
  listAgentBranchActive := false
  listRetriedWithoutAgent := false
  taken _ := none

variable (s : Readers)

/-! ## Stamps -/

def beginVaultRead (r : Reader) : Readers :=
  { s with readEpochs := Function.update s.readEpochs r (some s.vaultEpoch) }

def vaultReadIsStale (r : Reader) : Bool :=
  s.readEpochs r ≠ some s.vaultEpoch || !s.session

/-! ## Beginning a read -/

/-- `proc.command = …; proc.running = true`. -/
def run (r : Reader) (command : Command Request) : List Signal × Readers :=
  let handed := { s.procs r with command }.setRunning s.helper true
  (handed.1.map (.started r), { s with procs := Function.update s.procs r handed.2 })

/-- `agent`: the gate is open and a nonce is ready. -/
def startVaultListRead (retrying agent : Bool) : List Signal × Readers :=
  let listReadEarly := !s.unlocked
  let listAgentBranchActive := !retrying && !listReadEarly && agent
  { s with listReadEarly, listAgentBranchActive }.run .items (.bw .items)

/-- `blocked`: a program the list read needs is missing. -/
def loadItems (blocked agent : Bool) : List Signal × Readers :=
  if !s.session then ([], s)
  else if (s.procs .items).running && s.listReadEarly && !s.vaultReadIsStale .items then ([], s)
  else if blocked then ([], s.beginVaultRead .items)
  else (s.beginVaultRead .items).startVaultListRead false agent

/-- `loadOrganizations` and `loadFolders`, when what is shown is not fresh enough. -/
def loadMetadata (r : Reader) (request : Request) : List Signal × Readers :=
  if !s.session then ([], s) else (s.beginVaultRead r).run r (.bw request)

def loadOrganizations : List Signal × Readers := s.loadMetadata .organizations .organizations

def loadFolders : List Signal × Readers := s.loadMetadata .folders .folders

def loadOrgCollections (orgId : String) : List Signal × Readers :=
  if !s.session || orgId = "" then ([], s)
  else (s.beginVaultRead .collections).run .collections (.bw (.collections orgId))

/-- The owner chosen in the form, with no collections yet. -/
def chooseOrganization (orgId : String) : Readers :=
  { s with formOrgId := orgId, taken := Function.update s.taken .collections none }

def setFormOrganization (orgId : String) : List Signal × Readers :=
  if orgId ≠ "" && orgId ≠ "personal" && orgId ≠ "all" then
    (s.chooseOrganization orgId).loadOrgCollections orgId
  else ([], s.chooseOrganization orgId)

/-- A form is opened: new, for an item, or, `restored`, the one of a refused save. -/
def startForm (orgId : String) (restored : Bool) : List Signal × Readers :=
  let opened := if restored then { s with formOrgId := orgId } else s.chooseOrganization orgId
  if orgId ≠ "" && orgId ≠ "personal" then opened.loadOrgCollections orgId else ([], opened)

def resetItemForm : Readers := s.chooseOrganization ""

/-- What the list has of an item that is opened. -/
inductive Row where
  /-- The item itself (`rawObject`). -/
  | whole
  | sshKey
  /-- Its fields, with the secrets in the helper. -/
  | secretsHeld
  | other
  deriving DecidableEq

def openDetail (itemId : String) (row : Row) : List Signal × Readers :=
  let s := { s with taken := Function.update s.taken .detail none }
  match row with
  | .whole => ([], s)
  | .sshKey => ([], s.beginVaultRead .detail)
  | .secretsHeld =>
    if s.helper = .active then ([], s.beginVaultRead .detail)
    else (s.beginVaultRead .detail).run .detail (.bw (.detail itemId))
  | .other => (s.beginVaultRead .detail).run .detail (.bw (.detail itemId))

/-! ## Taking an answer -/

def take (r : Reader) (text : String) : List Signal × Readers :=
  ([.read r text], { s with taken := Function.update s.taken r (some text) })

def onListFinished (text : String) : List Signal × Readers :=
  if s.vaultReadIsStale .items then ([], s) else s.take .items text

def onListProcessExited (agent : Bool) (exitCode : Int) (text : String) : List Signal × Readers :=
  let hadAgentBranch := s.listAgentBranchActive
  let wasEarly := s.listReadEarly
  let s := { s with listAgentBranchActive := false, listReadEarly := false }
  if exitCode = 0 then { s with listRetriedWithoutAgent := false }.onListFinished text
  else if hadAgentBranch && !s.listRetriedWithoutAgent && !s.vaultReadIsStale .items then
    ({ s with listRetriedWithoutAgent := true }.beginVaultRead .items).startVaultListRead true agent
  else
    let s := { s with listRetriedWithoutAgent := false }
    if wasEarly && s.unlocked && !s.vaultReadIsStale .items then
      (s.beginVaultRead .items).startVaultListRead false agent
    else ([], s)

/-- The handlers of `exited`. Each asks first whether this was a scrub: whether the command, now, is
the scrub's. `isItemDetail`: the text parses as an item. -/
def onExited (isItemDetail : String → Bool) (r : Reader) (agent : Bool) (exitCode : Int)
    (text : String) : List Signal × Readers :=
  if (s.procs r).command.isScrub then
    ([], { s with scrubPending := Function.update s.scrubPending r false })
  else
    match r with
    | .items => s.onListProcessExited agent exitCode text
    | .detail =>
      if exitCode = 0 && !s.vaultReadIsStale .detail && isItemDetail text then s.take .detail text
      else ([], s)
    | r => if exitCode = 0 && !s.vaultReadIsStale r then s.take r text else ([], s)

/-! ## Locks and scrubs -/

/-- `scrubStep`: running processes are skipped, and tried again later. -/
def scrubStep : List Signal × Readers :=
  let starts (r : Reader) :=
    s.scrubPending r && !(s.procs r).running && !(s.procs r).command.isScrub
  let handed (r : Reader) := { s.procs r with command := .scrub }.setRunning s.helper true
  (Reader.all.flatMap fun r => if starts r then (handed r).1.map (.started r) else [],
    { s with
      procs := fun r => if starts r then (handed r).2 else s.procs r
      scrubPending := fun r => (s.procs r).running && s.scrubPending r || starts r })

/-- What a lock, a logout and an account switch share. -/
def dropVaultState : List Signal × Readers :=
  { s with
    session := false
    vaultEpoch := s.vaultEpoch + 1
    readEpochs := fun _ => none
    formOrgId := ""
    taken := fun _ => none
    scrubPending := fun _ => true }.scrubStep

end Readers

/-! ## Events -/

inductive Event where
  | loadItems (blocked agent : Bool)
  | loadOrganizations
  | loadFolders
  | setFormOrganization (orgId : String)
  | startForm (orgId : String) (restored : Bool)
  | resetItemForm
  | openDetail (itemId : String) (row : Readers.Row)
  /-- The reader's process is stopped. For the items this is `cancelSshAgentLoad`. -/
  | kill (r : Reader)
  | dropVaultState
  /-- An unlock, or a session handed over by a terminal. -/
  | unlock
  /-- A session from the keyring, which may replace another one. -/
  | adoptSession (other : Bool)
  | status (unlocked : Bool)
  | scrubRetry
  | helperReady (helper : Helper)
  | helperGone (agent : Bool)
  | helperExit (r : Reader) (agent : Bool) (exitCode : Int) (out : String)
  | localExit (r : Reader) (agent : Bool) (exitCode : Int) (out : String)
  /-- A deferred launch, or a deferred clear, of the reader's process is called. -/
  | launch (r : Reader) (agent : Bool)
  | clear (r : Reader)
  deriving DecidableEq

namespace Readers

variable (isItemDetail : String → Bool)

/-- The end of a run, if one was reported, and its handler. -/
def ended (r : Reader) (agent : Bool) (exitCode : Int) (text : Option String) (s : Readers) :
    List Signal × Readers :=
  match text with
  | none => ([], s)
  | some text =>
    let handled := s.onExited isItemDetail r agent exitCode text
    (.exited r :: handled.1, handled.2)

/-- A killed run ends with this code. -/
def killedCode : Int := 143

/-- Every run of the helper fails. The handlers see only their own process, so that all have ended
before the first is called makes no difference. -/
def helperGone (agent : Bool) (s : Readers) : List Signal × Readers :=
  let gone := { s with helper := .awaited, procs := fun r => (s.procs r).helperExit.2 }
  Reader.all.foldl (fun acc r =>
    let text := if (s.procs r).helperExit.1 then some "" else none
    let next := acc.2.ended isItemDetail r agent 1 text
    (acc.1 ++ next.1, next.2)) ([], gone)

def step (s : Readers) : Event → List Signal × Readers
  | .loadItems blocked agent => s.loadItems blocked agent
  | .loadOrganizations => s.loadOrganizations
  | .loadFolders => s.loadFolders
  | .setFormOrganization orgId => s.setFormOrganization orgId
  | .startForm orgId restored => s.startForm orgId restored
  | .resetItemForm => ([], s.resetItemForm)
  | .openDetail itemId row => s.openDetail itemId row
  | .kill r =>
    let p := ((s.procs r).setRunning s.helper false).2
    let s := { s with procs := Function.update s.procs r p }
    if r = .items then
      ([], { s with listAgentBranchActive := false, listRetriedWithoutAgent := false })
    else ([], s)
  | .dropVaultState => s.dropVaultState
  | .unlock => ([], { s with session := true, vaultEpoch := s.vaultEpoch + 1, unlocked := true })
  | .adoptSession other =>
    ([], { s with
      session := true
      vaultEpoch := if s.session && other then s.vaultEpoch + 1 else s.vaultEpoch })
  | .status unlocked => ([], { s with unlocked })
  | .scrubRetry => s.scrubStep
  | .helperReady helper =>
    if s.helper = .awaited then
      (Reader.all.flatMap fun r => ((s.procs r).flush helper).1.map (.started r),
        { s with helper, procs := fun r => ((s.procs r).flush helper).2 })
    else ([], s)
  | .helperGone agent => if s.helper = .active then s.helperGone isItemDetail agent else ([], s)
  | .helperExit r agent exitCode out =>
    let exit := (s.procs r).helperExit
    { s with procs := Function.update s.procs r exit.2 }.ended isItemDetail r agent exitCode
      (if exit.1 then some out else none)
  | .localExit r agent exitCode out =>
    let exit := (s.procs r).localExit out
    { s with procs := Function.update s.procs r exit.2 }.ended isItemDetail r agent exitCode exit.1
  | .launch r agent =>
    let launched := (s.procs r).runLaunch
    { s with procs := Function.update s.procs r launched.2 }.ended isItemDetail r agent killedCode
      (if launched.1 then some "" else none)
  | .clear r => ([], { s with procs := Function.update s.procs r (s.procs r).runClear })

end Readers

abbrev Step := Trace.Record Readers Event

/-- Nothing is assumed of the order of events. -/
def machine (isItemDetail : String → Bool) : Trace.Machine Readers Event where
  init := .new
  next s event := (s.step isItemDetail event).2
  may _ _ _ := True

instance (isItemDetail : String → Bool) (h : List Step) (s : Readers) (event : Event) :
    Decidable ((machine isItemDetail).may h s event) := inferInstanceAs (Decidable True)

end QsBitwarden.Panel.Reads
