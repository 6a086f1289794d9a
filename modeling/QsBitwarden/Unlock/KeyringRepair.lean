import Mathlib.Algebra.Order.Ring.Int
import Mathlib.Data.List.Basic

/-!
# Unlock — repairing a keyring file (`scripts/repair-keyring.sh`)

Envelopes used to be stored with line breaks in them, and a keyring without a password is a text
file that may not have any inside a secret. The script joins such secrets again, in the items whose
`service` attribute is `qs-bitwarden-cli`.

* **`search`**, **`ours`** — the first pass: which items are ours.
* **`join`**, **`finish`** — the second pass, line by line. A line that looks like base64 right
  behind a secret, or behind such a line, belongs to the secret.
* **`scan`** — both passes, with what the modes print.
* **`repair`** — the script up to the replaced file: the scan, the two checks of the copy, the
  backup.

Copying and moving succeed. What the script says and tries after the file is replaced (the backup's
name, opening the envelopes) is left out.
-/

namespace QsBitwarden.Unlock.KeyringRepair

abbrev Line := List Char

/-! ## Lines -/

/-- The records of a text: its lines, the last of which need not end. `line` is what was read of the
current one. -/
def recordsFrom (line : Line) : List Char → List Line
  | [] => if line = [] then [] else [line]
  | c :: rest => if c = '\n' then line :: recordsFrom [] rest else recordsFrom (line ++ [c]) rest

def records (text : List Char) : List Line := recordsFrom [] text

/-- `sub(/\r$/, "")`. -/
def withoutReturn (line : Line) : Line := if line.getLast? = some '\r' then line.dropLast else line

/-- Lines as `print` writes them. -/
def textOf (lines : List Line) : List Char := lines.flatMap (· ++ ['\n'])

/-- `wc -l`. -/
def newlines (text : List Char) : Nat := text.count '\n'

/-- `/^\[/`. -/
def isHeader (line : Line) : Bool := line.head? == some '['

/-- `/^\[[0-9]+:attribute[0-9]+\]$/`. -/
def isAttributeHeader (line : Line) : Bool :=
  let name := line.drop 1
  let rest := name.dropWhile Char.isDigit
  let index := rest.drop ":attribute".toList.length
  isHeader line && name.takeWhile Char.isDigit != []
    && ":attribute".toList.isPrefixOf rest
    && index.takeWhile Char.isDigit != [] && index.dropWhile Char.isDigit == [']']

def isBase64Char (c : Char) : Bool := c.isAlphanum || c == '+' || c == '/'

/-- `/^[A-Za-z0-9+\/]+={0,2}$/`. -/
def isContinuation (line : Line) : Bool :=
  let rest := line.dropWhile isBase64Char
  line.takeWhile isBase64Char != [] && decide (rest.length ≤ 2) && rest.all (· == '=')

/-! ## The first pass -/

structure Search where
  item : Line
  name : Line
  ours : List Line

def search (s : Search) (line : Line) : Search :=
  if isAttributeHeader line then { s with item := (line.drop 1).takeWhile (· ≠ ':'), name := [] }
  else if isHeader line then { s with item := [] }
  else if s.item ≠ [] ∧ "name=".toList.isPrefixOf line then { s with name := line.drop 5 }
  else if s.item ≠ [] ∧ s.name = "service".toList ∧ line = "value=qs-bitwarden-cli".toList then
    { s with ours := s.item :: s.ours }
  else s

def ours (lines : List Line) : List Line := (lines.foldl search ⟨[], [], []⟩).ours

/-! ## The second pass -/

structure Scan where
  secret : Line := []
  joining : Bool := false
  inSecret : Bool := false
  cur : Line := []
  joined : Nat := 0
  foreign : Nat := 0
  /-- The keys of `fixed`. -/
  fixed : List Line := []
  /-- What `mode=file` prints. -/
  file : List Line := []
  /-- What `mode=secrets` prints. -/
  secrets : List Line := []

namespace Scan

def emit (st : Scan) (line : Line) : Scan := { st with file := st.file ++ [line] }

def flush (st : Scan) : Scan :=
  let st := if st.joining then
      { st.emit st.secret with secrets := st.secrets ++ [st.secret.drop 7] }
    else st
  { st with joining := false, secret := [] }

/-- Prints a secret that is still held. -/
def settle (st : Scan) : Scan :=
  if st.joining then st.flush
  else if st.secret ≠ [] then { st.emit st.secret with secret := [] }
  else st

end Scan

def join (ours : List Line) (st : Scan) (line : Line) : Scan :=
  if st.inSecret && isContinuation line then
    if ours.contains st.cur then
      { st with secret := st.secret ++ line, joining := true, joined := st.joined + 1,
                fixed := if st.fixed.contains st.cur then st.fixed else st.fixed ++ [st.cur] }
    else { st with foreign := st.foreign + 1 }.emit line
  else
    let st := { st.settle with inSecret := false }
    let st := if isHeader line then { st with cur := (line.drop 1).take (line.length - 2) } else st
    if "secret=".toList.isPrefixOf line then
      let st := { st with inSecret := true }
      if ours.contains st.cur then { st with secret := line } else st.emit line
    else st.emit line

/-- `END`. The variables that it leaves are not used again. -/
def finish (st : Scan) : Scan := st.settle

/-- What the three modes print. -/
structure Printed where
  /-- The `stats`. -/
  items : Nat
  lines : Nat
  foreign : Nat
  file : List Char
  secrets : List Char

def scan (text : List Char) : Printed :=
  let lines := (records text).map withoutReturn
  let st := finish (lines.foldl (join (ours lines)) {})
  { items := st.fixed.length, lines := st.joined, foreign := st.foreign,
    file := textOf st.file, secrets := textOf st.secrets }

/-! ## The script -/

/-- The option given, if any. -/
inductive Flag where
  | none
  | check
  | auto
  deriving DecidableEq

/-- What a run leaves. -/
structure Run where
  exit : Nat
  /-- The last line of `--auto`. -/
  status : Option String
  messages : List String
  file : Option (List Char)
  backup : Option (List Char)

def say (text : String) : String := "repair-keyring: " ++ text

def statusLine (flag : Flag) (status : String) : Option String :=
  if flag = .auto then some ("file=" ++ status) else none

def die (flag : Flag) (file : Option (List Char)) (said : List String) (why : String) : Run :=
  { exit := 1, status := statusLine flag "failed", messages := said ++ [say why], file,
    backup := none }

def skip (flag : Flag) (file : Option (List Char)) (why : String) : Run :=
  if flag = .auto then
    { exit := 0, status := statusLine flag "skipped", messages := [], file, backup := none }
  else die flag file [] why

/-- The first line, as `read` reads it. -/
def firstLine (text : List Char) : Line := withoutReturn (text.takeWhile (· ≠ '\n'))

def foreignMessages (path : String) (foreign : Nat) : List String :=
  if 0 < foreign then
    [say (toString foreign ++ " line break(s) sit inside secrets that are not qs-bitwarden-cli's. "
        ++ "They are left"),
      say ("alone, and gnome-keyring will refuse " ++ path
        ++ " until whatever stored them fixes them.")]
  else []

def splitMessage (path : String) (items lines : Nat) : String :=
  say (toString items ++ " qs-bitwarden-cli secret(s) in " ++ path ++ " are split across "
    ++ toString (lines + items) ++ " lines")

def cleanMessages (flag : Flag) (path : String) : List String :=
  if flag = .auto then []
  else [say ("no qs-bitwarden-cli secret in " ++ path ++ " spans more than one line")]

def repair (flag : Flag) (path : String) (file : Option (List Char)) : Run :=
  match file with
  | none => skip flag file ("no keyring file at " ++ path)
  | some text =>
    if firstLine text ≠ "[keyring]".toList then
      skip flag file (path ++ " is not a passwordless (text) keyring; nothing to repair")
    else
      let found := scan text
      let said := foreignMessages path found.foreign
      if found.items = 0 then
        { exit := 0, status := statusLine flag "clean",
          messages := said ++ cleanMessages flag path, file, backup := none }
      else
        let said := said ++ [splitMessage path found.items found.lines]
        if flag = .check then { exit := 3, status := none, messages := said, file, backup := none }
        else
          let copy := found.file
          if (scan copy).items ≠ 0 then
            die flag file said
              ("the repaired copy still has a split secret; " ++ path ++ " is unchanged")
          else if (newlines copy : Int) ≠ newlines text - found.lines then
            die flag file said ("the repaired copy is not the original less the joined lines; "
              ++ path ++ " is unchanged")
          else
            { exit := 0, status := statusLine flag "repaired", messages := said,
              file := some copy, backup := some text }

end QsBitwarden.Unlock.KeyringRepair
