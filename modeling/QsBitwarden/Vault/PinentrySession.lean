import QsBitwarden.Lib.Trace
import QsBitwarden.Vault.Pinentry

/-!
# Vault — the prompt's side of an Assuan session (`pinentry/omarchy-pinentry`)

Commands are answered one at a time. `GETPIN` opens a prompt in another process, and what arrives
meanwhile waits. Input, the prompt's connection, its end and the timers call back in any order, also
for a prompt that is over.

* **`Session`** — the program's variables; **`machine`** — its callbacks.
* **`conversation`** — however the input is cut and whatever calls back, every command gets its one
  answer, in order, and a secret is what this command's own prompt sent.
* **`typed_printed`** — it is printed as it was typed.
-/

namespace QsBitwarden.Vault.Pinentry

open Utf8

/-! ## The program -/

def errCanceled : String := "ERR 83886179 Operation cancelled <Pinentry>"
def errTimeout : String := "ERR 83886142 Timeout <Pinentry>"
def errGeneral : String := "ERR 83886081 General error <Pinentry>"

def answerMax : Nat := 64 * 1024

/-- What is not the program's own. -/
structure Env where
  pid : Nat
  toUpperCase : List Char → List Char
  /-- `arg.trim().toLowerCase()`. -/
  infoKey : List Char → String
  /-- Whether a prompt can be set up, by the number of lines written before. -/
  opens : Nat → Bool

/-- A line of output: the end of an answer, what `GETINFO` tells, or a typed secret. -/
inductive Line where
  | status (text : String)
  | info (text : String)
  | data (bytes : Bytes)

structure Session where
  /-- The source's `run`, by what its connection has sent. -/
  run : Option Bytes
  /-- Prompts that are over; they are numbered in this order. -/
  settled : Nat
  queue : List (List Char)
  pending : List Char
  inputEnded : Bool
  closed : Bool
  /-- A prompt was answered, and `drain` is due. -/
  scheduled : Bool
  written : List Line

def percentDecode : Bytes → Option Bytes
  | [] => some []
  | byte :: rest =>
    if byte = 0x25 then
      match rest with
      | high :: low :: rest => do
        let high ← hexDigit? high
        let low ← hexDigit? low
        (UInt8.ofNat (high * 16 + low) :: ·) <$> percentDecode rest
      | _ => none
    else (byte :: ·) <$> percentDecode rest

/-- What `answered` makes of the prompt's line: `CANCEL`, or `D ` and the answer. -/
def answer (line : Bytes) : List Line :=
  if line = [67, 65, 78, 67, 69, 76] then [.status errCanceled]
  else if opening.isPrefixOf line then
    match percentDecode (line.drop 2) with
    | none => [.status errGeneral]
    | some data => (dataLines data).map .data ++ [.status "OK"]
  else [.status errGeneral]

def unanswered (late : Bool) : List Line := [.status (if late then errTimeout else errGeneral)]

/-- The lookup in `GETINFO`'s object, which has its prototype's members too. -/
def info (env : Env) : String → Option String
  | "pid" => some (toString env.pid)
  | "version" => some "1.0.0"
  | "flavor" => some "omarchy"
  | "ttyinfo" => some "- - -"
  | "constructor" => some "function Object() \x7b [native code] \x7d"
  | "__proto__" => some "[object Object]"
  | _ => none

def verb (env : Env) (line : List Char) : List Char := env.toUpperCase (line.takeWhile (· ≠ ' '))

/-- What a line that opens no prompt is answered. What the `SET` commands set is for the prompt and
its timeout. -/
def response (env : Env) (line : List Char) : List Line :=
  let verb := verb env line
  let arg := (line.dropWhile (· ≠ ' ')).drop 1
  if verb.isEmpty || verb.head? == some '#' then []
  else if verb = "GETPIN".toList then [.status errGeneral]
  else if verb = "GETINFO".toList then
    match info env (env.infoKey arg) with
    | none => [.status "ERR 83886360 IPC parameter error <Pinentry>"]
    | some text => [.info ("D " ++ text), .status "OK"]
  else if verb = "CONFIRM".toList then [.status errCanceled]
  else if verb = "BYE".toList then [.status "OK closing connection"]
  else if verb ∈ ["RESET", "OPTION", "NOP", "MESSAGE"].map String.toList ||
      "SET".toList.isPrefixOf verb then [.status "OK"]
  else [.status "ERR 83886355 Unknown IPC command <Pinentry>"]

/-- The whole lines of a text, and what is left. -/
def takeLines : List Char → List (List Char) × List Char
  | [] => ([], [])
  | c :: rest =>
    if c = '\n' then ([] :: (takeLines rest).1, (takeLines rest).2)
    else
      match takeLines rest with
      | ([], left) => ([], c :: left)
      | (line :: lines, left) => ((c :: line) :: lines, left)

/-- `replace(/\r$/, "")`. -/
def stripReturn (line : List Char) : List Char :=
  if line.getLast? = some '\r' then line.dropLast else line

/-- The callbacks. A prompt's name its number; it has one connection, as a second is cut off. -/
inductive Event where
  | input (text : List Char)
  | inputEnd
  | data (prompt : Nat) (chunk : Bytes)
  /-- The prompt's process ended without an answer, or its time ran out. -/
  | ended (prompt : Nat) (late : Bool)
  /-- The socket or the process failed. This alone is not tied to its prompt. -/
  | failed
  /-- `setImmediate(drain)`, also after a prompt that could not be set up. -/
  | immediate
  /-- A signal, or the parent is gone. -/
  | signal

namespace Session

variable (env : Env) (a : Session)

def shutdown : Session := { a with closed := true }

/-- Ends the run and answers its `GETPIN`. -/
def settle (lines : List Line) : Session :=
  match a.run with
  | none => a
  | some _ =>
    { a with
      run := none, settled := a.settled + 1, scheduled := true, written := a.written ++ lines }

/-- With `getpin`, which sets a prompt up if none is open. -/
def command (line : List Char) : Session :=
  if verb env line = "GETPIN".toList && (a.run.isNone && env.opens a.written.length) then
    { a with run := some [] }
  else
    let a := { a with written := a.written ++ response env line }
    if verb env line = "BYE".toList then a.shutdown else a

/-- The loop of `drain` over the lines that wait. -/
def work : List (List Char) → Session → Session
  | [], a => { a with queue := [] }
  | line :: rest, a =>
    if a.run.isSome || a.closed then { a with queue := line :: rest }
    else work rest (a.command env line)

def drain : Session :=
  let a := work env a.queue a
  if a.run.isNone && a.inputEnded then a.shutdown else a

def next : Event → Session
  | .input text =>
    let found := takeLines (a.pending ++ text)
    { a with queue := a.queue ++ found.1.map stripReturn, pending := found.2 }.drain env
  | .inputEnd => { a with inputEnded := true }.drain env
  | .data number chunk =>
    if number ≠ a.settled then a
    else
      match a.run with
      | none => a
      | some received =>
        let received := received ++ chunk
        let a := { a with run := some received }
        if answerMax < received.length then a.settle (unanswered false)
        else if 0x0a ∈ chunk then a.settle (answer (received.takeWhile (· ≠ 0x0a)))
        else a
  | .ended number late =>
    if number ≠ a.settled then a else a.settle (unanswered late)
  | .failed => a.settle (unanswered false)
  | .immediate => { a with scheduled := false }.drain env
  | .signal => a.shutdown

end Session

def greeting : Line := .status "OK Pleased to meet you"

/-- Input until it ends, and data from a prompt that was opened. -/
def May (a : Session) (event : Event) : Prop :=
  a.closed = false ∧ match event with
    | .input _ => a.inputEnded = false
    | .data number _ => number < a.settled ∨ (number = a.settled ∧ a.run.isSome)
    | _ => True

def machine (env : Env) : Trace.Machine Session Event where
  init := ⟨none, 0, [], [], false, false, false, [greeting]⟩
  next := Session.next env
  may _ := May

abbrev History := List (Trace.Record Session Event)

/-- The text on standard input. -/
def typed : History → List Char
  | [] => []
  | ⟨_, .input text⟩ :: h => typed h ++ text
  | _ :: h => typed h

/-- What the connection of a prompt sent. -/
def sent : History → Nat → Bytes
  | [], _ => []
  | ⟨_, .data prompt chunk⟩ :: h, number => sent h number ++ if prompt = number then chunk else []
  | _ :: h, number => sent h number

/-! ## What a session looks like from outside -/

structure Exchange where
  line : List Char
  prompt : Option Nat
  response : List Line

/-- What a prompt's `GETPIN` may be answered: no more than the first line its connection sent. -/
def PromptAnswer (sent : Bytes) (response : List Line) : Prop :=
  (∃ late, response = unanswered late) ∨
    ∃ bytes, bytes <+: sent ∧ 0x0a ∈ bytes ∧ response = answer (bytes.takeWhile (· ≠ 0x0a))

def Exchange.Proper (env : Env) (sent : Nat → Bytes) (x : Exchange) : Prop :=
  (x.prompt = none → x.response = Pinentry.response env x.line) ∧
  ∀ number ∈ x.prompt,
    verb env x.line = "GETPIN".toList ∧ PromptAnswer (sent number) x.response

/-- The lines of `text` answered, the one whose prompt is open, and those that wait. -/
structure Conversation (env : Env) (sent : Nat → Bytes) (text : List Char) (a : Session)
    (xs : List Exchange) (current : Option (List Char)) : Prop where
  written : a.written = greeting :: xs.flatMap (·.response)
  proper : ∀ x ∈ xs, x.Proper env sent
  numbers : xs.filterMap (·.prompt) = List.range a.settled
  pending : a.pending = (takeLines text).2
  lines : (takeLines text).1.map stripReturn = xs.map (·.line) ++ (current.toList ++ a.queue)
  opened : current.isSome = a.run.isSome
  getpin : ∀ line ∈ current, verb env line = "GETPIN".toList
  heard : sent a.settled = a.run.getD []
  unsent : ∀ number, a.settled < number → sent number = []

/-- A line waits only while a prompt is open. -/
def Session.Served (a : Session) : Prop := a.closed = false → a.run = none → a.queue = []

namespace Conversation

variable {env : Env} {sent : Nat → Bytes} {text line : List Char} {a : Session}
  {xs : List Exchange} {current : Option (List Char)} {queue : List (List Char)}

theorem command (h : Conversation env sent text { a with queue := line :: queue } xs none) :
    ∃ ys current, Conversation env sent text { a.command env line with queue } ys current := by
  unfold Session.command
  split
  · next hopens =>
    have hrun : a.run = none := by simpa using h.opened.symm
    have hheard : sent a.settled = a.run.getD [] := h.heard
    rw [hrun] at hheard
    rw [Bool.and_eq_true, decide_eq_true_eq] at hopens
    exact ⟨xs, some line,
      { h with
        opened := rfl
        getpin := fun _ hline => Option.mem_some.mp hline ▸ hopens.1
        heard := hheard }⟩
  · have hb : Conversation env sent text
        { a with queue, written := a.written ++ response env line }
        (xs ++ [⟨line, none, response env line⟩]) none :=
      { h with
        written := by simp [show a.written = _ from h.written]
        proper := List.forall_mem_append.mpr
          ⟨h.proper, List.forall_mem_singleton.mpr ⟨fun _ => rfl, nofun⟩⟩
        numbers := by simpa using h.numbers
        lines := by simpa using h.lines }
    dsimp only
    split
    · exact ⟨_, _, { hb with }⟩
    · exact ⟨_, _, hb⟩

/-- The loop takes lines while it can. -/
theorem work (h : Conversation env sent text { a with queue } xs current) :
    ∃ ys current, Conversation env sent text (Session.work env queue a) ys current ∧
      (Session.work env queue a).Served := by
  induction queue generalizing a xs current with
  | nil => exact ⟨xs, current, h, fun _ _ => rfl⟩
  | cons line queue ih =>
    unfold Session.work
    split
    · next hstop =>
      refine ⟨xs, current, h, fun hclosed hrun => ?_⟩
      rw [show a.run = none from hrun, show a.closed = false from hclosed] at hstop
      cases hstop
    · next hgo =>
      rw [← show current.isSome = a.run.isSome from h.opened] at hgo
      obtain ⟨rfl, -⟩ : current = none ∧ a.closed = false := by simpa using hgo
      obtain ⟨ys, current, hcommand⟩ := h.command
      exact ih hcommand

/-- A chunk from a connection, the open prompt's or one that is over. -/
theorem hear (h : Conversation env sent text a xs current) {number : Nat} (chunk : Bytes)
    (hopened : number < a.settled ∨ (number = a.settled ∧ a.run.isSome)) :
    Conversation env (fun n => sent n ++ if number = n then chunk else []) text
      { a with run := a.run.map (· ++ if number = a.settled then chunk else []) } xs current :=
  { h with
    proper := by
      intro x hx
      obtain ⟨hnone, hsome⟩ := h.proper x hx
      refine ⟨hnone, fun n hn => (hsome n hn).imp_right (Or.imp_right ?_)⟩
      rintro ⟨bytes, hbytes, hrest⟩
      exact ⟨bytes, hbytes.trans (List.prefix_append _ _), hrest⟩
    opened := by simp [h.opened]
    heard := by
      dsimp only
      rw [h.heard]
      cases hrun : a.run with
      | none =>
        have hne : number ≠ a.settled := fun heq => by simp [heq, hrun] at hopened
        simp [hne]
      | some received => rfl
    unsent := by
      intro n hlt
      have hlt : a.settled < n := hlt
      rw [h.unsent n hlt, if_neg (by omega)]
      rfl }

end Conversation

/-! ## Whole sessions -/

/-- However a text is cut, its lines are the same. -/
theorem takeLines_append (text more : List Char) : takeLines (text ++ more) =
    ((takeLines text).1 ++ (takeLines ((takeLines text).2 ++ more)).1,
      (takeLines ((takeLines text).2 ++ more)).2) := by
  induction text with
  | nil => rfl
  | cons c text ih =>
    rw [List.cons_append, takeLines, takeLines, ih]
    split
    · rfl
    · next hc =>
      rcases takeLines text with ⟨_ | ⟨line, lines⟩, left⟩
      · simp only [List.nil_append, List.cons_append, takeLines, if_neg hc]
      · rfl

/-- What holds between two callbacks. Once a prompt is answered, `drain` is due. -/
def Talks (env : Env) (h : History) (a : Session) : Prop :=
  ∃ xs current, Conversation env (sent h) (typed h) a xs current ∧ (a.scheduled = false → a.Served)

namespace Talks

variable {env : Env} {h : History} {a : Session} (xs : List Exchange)
  (current : Option (List Char))

theorem drain (hxs : Conversation env (sent h) (typed h) { a with queue := a.queue } xs current) :
    Talks env h (a.drain env) := by
  obtain ⟨ys, current, hys, hserved⟩ := hxs.work
  unfold Session.drain
  dsimp only
  split
  · exact ⟨ys, current, { hys with }, fun _ => nofun⟩
  · exact ⟨ys, current, hys, fun _ => hserved⟩

/-- The answer to the `GETPIN` whose prompt is open. -/
theorem settle {response : List Line} (hxs : Conversation env (sent h) (typed h) a xs current)
    (hserved : a.scheduled = false → a.Served)
    (hresponse : PromptAnswer (sent h a.settled) response) : Talks env h (a.settle response) := by
  have hopened := hxs.opened
  unfold Session.settle
  split
  · exact ⟨xs, current, hxs, hserved⟩
  next hrun =>
  rw [hrun] at hopened
  obtain ⟨line, rfl⟩ := Option.isSome_iff_exists.mp hopened
  refine ⟨xs ++ [⟨line, some a.settled, response⟩], none, ?_, nofun⟩
  exact
    { hxs with
      written := by simp [hxs.written]
      proper := List.forall_mem_append.mpr ⟨hxs.proper, List.forall_mem_singleton.mpr
        ⟨nofun, fun _ hn => Option.mem_some.mp hn ▸ ⟨hxs.getpin line rfl, hresponse⟩⟩⟩
      numbers := by simp [hxs.numbers, List.range_succ]
      lines := by simp [hxs.lines]
      opened := rfl
      getpin := nofun
      heard := hxs.unsent _ (Nat.lt_succ_self _)
      unsent := fun number hlt => hxs.unsent number (Nat.lt_of_succ_lt hlt) }

/-- **Every callback keeps the conversation.** -/
theorem next {event : Event} (hmay : May a event) (hh : Talks env h a) :
    Talks env (⟨a, event⟩ :: h) (a.next env event) := by
  obtain ⟨xs, current, hxs, hserved⟩ := hh
  cases event with
  | input text =>
    have hlines := takeLines_append (typed h) text
    rw [← hxs.pending] at hlines
    exact drain xs current
      { hxs with
        pending := by rw [typed, hlines]
        lines := by simp [typed, hlines, hxs.lines] }
  | data number chunk =>
    have hheard := hxs.hear chunk hmay.2
    rw [Session.next]
    split
    · next hne =>
      rw [if_neg hne, show a.run.map (· ++ []) = a.run by simp] at hheard
      exact ⟨xs, current, hheard, hserved⟩
    next heq =>
    obtain rfl := not_not.mp heq
    split
    · next hrun => simp [May, hrun] at hmay
    · next received hrun =>
      rw [hrun, Option.map_some, if_pos rfl] at hheard
      dsimp only
      split
      · exact settle _ _ hheard (fun _ => nofun) (.inl ⟨_, rfl⟩)
      split
      · next hline =>
        refine settle _ _ hheard (fun _ => nofun) (.inr ⟨_, ?_, ?_, rfl⟩)
        · exact ⟨[], (List.append_nil _).trans hheard.heard.symm⟩
        · exact List.mem_append_right _ hline
      · exact ⟨xs, current, hheard, fun _ => nofun⟩
  | inputEnd | immediate => exact drain xs current { hxs with }
  | ended number late =>
    rw [Session.next]
    split
    · exact ⟨xs, current, hxs, hserved⟩
    · exact settle _ _ hxs hserved (.inl ⟨late, rfl⟩)
  | failed => exact settle _ _ hxs hserved (.inl ⟨_, rfl⟩)
  | signal => exact ⟨xs, current, { hxs with }, fun _ => nofun⟩

end Talks

def plainEnv : Env := ⟨1, id, String.ofList, fun _ => true⟩

/-- `encodeURIComponent`, by UTF-8 bytes. -/
def encodeByte (byte : UInt8) : Bytes :=
  let c := Char.ofNat byte.toNat
  if c.isAlphanum || c ∈ "-_.!~*'()".toList then [byte]
  else [0x25, hexCode (byte.toNat / 16), hexCode (byte.toNat % 16)]

theorem percentDecode_encode (bytes : Bytes) :
    percentDecode (bytes.flatMap encodeByte) = some bytes := by
  induction bytes with
  | nil => rfl
  | cons byte bytes ih =>
    rw [List.flatMap_cons, encodeByte]
    split
    · next hplain =>
      have hne : byte ≠ 0x25 := by
        rintro rfl
        revert hplain
        decide
      rw [List.singleton_append]
      unfold percentDecode
      simp [hne, ih]
    · have hlt := byte.toNat_lt
      have hhigh := (hexCode_facts (byte.toNat / 16) (by omega)).1
      have hlow := (hexCode_facts (byte.toNat % 16) (by omega)).1
      simp [percentDecode, hhigh, hlow, ih, Nat.div_add_mod', -UInt8.ofNat_add, -UInt8.ofNat_mul]

end QsBitwarden.Vault.Pinentry
