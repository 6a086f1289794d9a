import Mathlib.Data.List.Basic
import Mathlib.Data.List.Infix
import Mathlib.Tactic.SplitIfs

/-!
# Shell — how a shell takes a script apart

Tokens by the rules of the POSIX shell (quoting, operators, comments, the number before a
redirection) with bash's process substitution, and the pipelines of simple commands that the tokens
begin with. What a script can hold beyond that (command substitution, `$\x7b`, here-documents) makes
`lex` give up, so a text it reads has none of it.

* **`step`**, **`lexFrom`**, **`lex`** — the tokens of a text, a character at a time.
* **`Word.field`** — the one field a word stands for if nothing in it is subject to expansion.
* **`read`** — the leading pipelines, up to a compound command.
* **`lexFrom_quoted`**, **`lexFrom_plain`** — a quoted word and a word of ordinary characters, read
  wherever a word may begin.
-/

namespace Shell

/-! ## Tokens -/

/-- A character of a word, or something in it that will be expanded. -/
inductive Piece where
  | plain (c : Char)
  /-- In quotes, or behind a backslash. -/
  | quoted (c : Char)
  /-- The `$` of a parameter, or a `$` that stands for itself. -/
  | dollar (inQuotes : Bool)
  /-- `<(text)` or `>(text)`. -/
  | process (direction : Char) (text : List Char)
  deriving DecidableEq

abbrev Word := List Piece

inductive Token where
  | word (w : Word)
  /-- Digits right before a redirection. -/
  | ioNumber (digits : List Char)
  | op (text : List Char)
  deriving DecidableEq

def operators : List (List Char) :=
  [[';'], [';', ';'], [';', '&'], [';', ';', '&'], ['|'], ['|', '|'], ['|', '&'], ['&'], ['&', '&'],
    ['&', '>'], ['&', '>', '>'], ['('], [')'], ['<'], ['<', '<'], ['<', '<', '-'], ['<', '<', '<'],
    ['<', '&'], ['<', '>'], ['>'], ['>', '>'], ['>', '&'], ['>', '|'], ['\n']]

def isOperatorStart (c : Char) : Bool := operators.contains [c]

def isBlank (c : Char) : Bool := c == ' ' || c == '\t'

/-- Where the reading stands; `none` is between tokens. -/
inductive Mode where
  | base (w : Option Word)
  | single (w : Word)
  | double (w : Word)
  /-- Behind a backslash. -/
  | escape (w : Option Word)
  | doubleEscape (w : Word)
  /-- Behind a `$`. -/
  | dollar (w : Word)
  | doubleDollar (w : Word)
  /-- In an operator; `glued` to a word before it. -/
  | operator (text : List Char) (glued : Bool)
  | comment
  | process (direction : Char) (depth : Nat) (text : List Char)
  deriving DecidableEq

/-- The tokens so far, newest first. -/
structure Lexer where
  done : List Token
  mode : Mode
  deriving DecidableEq

/-- An unquoted digit. -/
def Piece.digit? : Piece → Option Char
  | .plain c => if c.isDigit then some c else none
  | _ => none

/-- A word that a redirection follows is a number if it is made of digits. -/
def wordToken (w : Word) (next : Char) : Token :=
  let digits := w.filterMap Piece.digit?
  if (next == '<' || next == '>') && !w.isEmpty && digits.length == w.length then .ioNumber digits
  else .word w

/-- The tokens when `next` ends the word, if there is one. -/
def endWord (done : List Token) (next : Char) : Option Word → List Token
  | some w => wordToken w next :: done
  | none => done

/-- Here-documents have their text elsewhere. -/
def hereDocument (text : List Char) : Bool := text == ['<', '<'] || text == ['<', '<', '-']

def emitOp (done : List Token) (text : List Char) : Option (List Token) :=
  if hereDocument text then none else some (.op text :: done)

/-- An unquoted character. -/
def stepBase (done : List Token) (w : Option Word) (c : Char) : Option Lexer :=
  if c = '\'' then some ⟨done, .single (w.getD [])⟩
  else if c = '"' then some ⟨done, .double (w.getD [])⟩
  else if c = '\\' then some ⟨done, .escape w⟩
  else if c = '\x60' then none
  else if c = '$' then some ⟨done, .dollar (w.getD [])⟩
  else if isBlank c then
    some ⟨endWord done c w, .base none⟩
  else if isOperatorStart c then
    some ⟨endWord done c w, .operator [c] w.isSome⟩
  else if c = '#' ∧ w = none then some ⟨done, .comment⟩
  else some ⟨done, .base (some (w.getD [] ++ [.plain c]))⟩

def stepDouble (done : List Token) (w : Word) (c : Char) : Option Lexer :=
  if c = '"' then some ⟨done, .base (some w)⟩
  else if c = '\\' then some ⟨done, .doubleEscape w⟩
  else if c = '\x60' then none
  else if c = '$' then some ⟨done, .doubleDollar w⟩
  else some ⟨done, .double (w ++ [.quoted c])⟩

def step (s : Lexer) (c : Char) : Option Lexer :=
  match s.mode with
  | .base w => stepBase s.done w c
  | .single w =>
    if c = '\'' then some { s with mode := .base (some w) }
    else some { s with mode := .single (w ++ [.quoted c]) }
  | .double w => stepDouble s.done w c
  | .escape w =>
    -- a line that goes on
    if c = '\n' then some { s with mode := .base w }
    else some { s with mode := .base (some (w.getD [] ++ [.quoted c])) }
  | .doubleEscape w =>
    if c = '\n' then some { s with mode := .double w }
    else if c = '$' || c = '\x60' || c = '"' || c = '\\' then
      some { s with mode := .double (w ++ [.quoted c]) }
    else some { s with mode := .double (w ++ [.quoted '\\', .quoted c]) }
  | .dollar w =>
    if c = '(' || c = '\x7b' || c = '[' || c = '\'' || c = '"' then none
    else stepBase s.done (some (w ++ [.dollar false])) c
  | .doubleDollar w =>
    if c = '(' || c = '\x7b' || c = '[' then none
    else stepDouble s.done (w ++ [.dollar true]) c
  | .operator text glued =>
    if operators.contains (text ++ [c]) then some { s with mode := .operator (text ++ [c]) glued }
    else if c = '(' ∧ (text = ['<'] ∨ text = ['>']) then
      if glued then none else some { s with mode := .process (text.headD ' ') 1 [] }
    else (emitOp s.done text).bind fun done => stepBase done none c
  | .comment => if c = '\n' then stepBase s.done none c else some s
  | .process direction depth text =>
    if c = '\'' || c = '"' || c = '\\' || c = '\x60' || c = '$' || c = '#' then none
    else if c = '(' then some { s with mode := .process direction (depth + 1) (text ++ [c]) }
    else if c = ')' then
      if depth = 1 then some { s with mode := .base (some [.process direction text]) }
      else some { s with mode := .process direction (depth - 1) (text ++ [c]) }
    else some { s with mode := .process direction depth (text ++ [c]) }

def lexFrom (s : Lexer) (text : List Char) : Option Lexer := text.foldlM step s

/-- The end of the text also ends a word. -/
def finish (s : Lexer) : Option (List Token) :=
  match s.mode with
  | .base none | .comment => some s.done.reverse
  | .base (some w) => some (.word w :: s.done).reverse
  | .dollar w => some (.word (w ++ [.dollar false]) :: s.done).reverse
  | .operator text _ => (emitOp s.done text).map List.reverse
  | _ => none

def start : Lexer := ⟨[], .base none⟩

def lex (text : List Char) : Option (List Token) := (lexFrom start text).bind finish

/-! ## Words -/

/-- Unquoted characters that make the shell look for files, directories or alternatives. -/
def expanding : List Char := ['*', '?', '[', '~', '\x7b']

def Piece.fixed : Piece → Option Char
  | .plain c => if expanding.contains c then none else some c
  | .quoted c => some c
  | _ => none

/-- What the word stands for, if no expansion changes it; quotes are gone. -/
def field (w : Word) : Option (List Char) := w.mapM Piece.fixed

/-- The text of a word without any quotes. -/
def plainText (w : Word) : Option (List Char) :=
  w.mapM fun
    | .plain c => some c
    | _ => none

def reservedWords : List (List Char) :=
  ["!", "\x7b", "\x7d", "case", "do", "done", "elif", "else", "esac", "fi", "for", "if", "in",
    "then", "until", "while", "function", "select", "time", "coproc", "[[", "]]"].map String.toList

def isReserved (w : Word) : Bool := (plainText w).any reservedWords.contains

def Piece.isNameChar : Piece → Bool
  | .plain c => c.isAlphanum || c == '_'
  | _ => false

/-- `name=value`, with the name and the `=` unquoted; a name does not begin with a digit. -/
def isAssignment (w : Word) : Bool :=
  let name := w.takeWhile Piece.isNameChar
  name.head?.any (fun piece => piece.digit?.isNone) &&
    (w.drop name.length).head? == some (.plain '=')

/-! ## Commands -/

structure Redirect where
  number : Option (List Char)
  op : List Char
  target : Word
  deriving DecidableEq

/-- A simple command. -/
structure Command where
  assignments : List Word
  words : List Word
  redirects : List Redirect
  deriving DecidableEq

def Command.empty : Command := ⟨[], [], []⟩

abbrev Pipeline := List Command

/-- What has been read: whole pipelines, the commands of the current one, the current command, and
a redirection that waits for its number's operator or its target. -/
structure Reader where
  pipelines : List Pipeline
  commands : Pipeline
  command : Command
  number : Option (List Char)
  redirect : Option (List Char)
  deriving DecidableEq

def Reader.start : Reader := ⟨[], [], .empty, none, none⟩

namespace Reader

def addWord (r : Reader) (w : Word) : Option Reader :=
  match r.redirect with
  | some op =>
    let redirects := r.command.redirects ++ [⟨r.number, op, w⟩]
    some { r with command := { r.command with redirects }, number := none, redirect := none }
  | none =>
    if r.command = .empty ∧ isReserved w then none
    else if r.command.words = [] ∧ isAssignment w then
      some { r with command := { r.command with assignments := r.command.assignments ++ [w] } }
    else some { r with command := { r.command with words := r.command.words ++ [w] } }

def separators : List (List Char) := [[';'], ['\n'], ['&'], ['&', '&'], ['|', '|']]

def isRedirection (op : List Char) : Bool := op.contains '<' || op.contains '>'

/-- A command has ended. -/
def closeCommand (r : Reader) : Option Reader :=
  if r.command = .empty ∨ r.redirect.isSome then none
  else some { r with commands := r.commands ++ [r.command], command := .empty }

def closePipeline (r : Reader) : Option Reader :=
  r.closeCommand.map fun r => { r with pipelines := r.pipelines ++ [r.commands], commands := [] }

def step (r : Reader) : Token → Option Reader
  | .word w => r.addWord w
  | .ioNumber digits => if r.redirect.isSome then none else some { r with number := some digits }
  | .op text =>
    if isRedirection text then
      if r.redirect.isSome then none else some { r with redirect := some text }
    else if text = ['|'] then r.closeCommand
    else if text = ['\n'] ∧ r.command = .empty ∧ r.redirect.isNone then some r
    else if separators.contains text then r.closePipeline
    else none

end Reader

variable {s : Lexer} {text : List Char} {c : Char}

/-- The pipelines up to the first token that is not part of one, and the tokens from there. -/
def readFrom (r : Reader) : List Token → List Pipeline × List Token
  | [] => ((r.closePipeline.getD r).pipelines, [])
  | token :: rest =>
    match r.step token with
    | some r => readFrom r rest
    | none => (r.pipelines, token :: rest)

def read (tokens : List Token) : List Pipeline × List Token := readFrom .start tokens

/-! ## Reading on -/

theorem lexFrom_append (s : Lexer) (text more : List Char) :
    lexFrom s (text ++ more) = (lexFrom s text).bind fun s' => lexFrom s' more :=
  List.foldlM_append

/-- A text that is read to its end, and what follows it. -/
theorem lexFrom_append_of {s' : Lexer} (h : lexFrom s text = some s') (more : List Char) :
    lexFrom s (text ++ more) = lexFrom s' more := by
  rw [lexFrom_append, h, Option.bind_some]

theorem lexFrom_cons (s : Lexer) (c : Char) (text : List Char) :
    lexFrom s (c :: text) = (step s c).bind fun s' => lexFrom s' text :=
  List.foldlM_cons

/-- A text in single quotes, with each single quote in it written as `'\''`. -/
def singleQuote (text : List Char) : List Char :=
  '\'' :: (text.flatMap fun c => if c = '\'' then ['\'', '\\', '\'', '\''] else [c]) ++ ['\'']

/-- Inside single quotes, up to the closing one. -/
theorem lexFrom_single (done : List Token) (w : Word) (text : List Char) :
    lexFrom ⟨done, .single w⟩
        ((text.flatMap fun c => if c = '\'' then ['\'', '\\', '\'', '\''] else [c]) ++ ['\''])
      = some ⟨done, .base (some (w ++ text.map .quoted))⟩ := by
  induction text generalizing w with
  | nil =>
    rw [List.map_nil, List.append_nil]
    rfl
  | cons c text ih =>
    rw [List.flatMap_cons, List.append_assoc, lexFrom_append, List.map_cons]
    have hone : lexFrom ⟨done, .single w⟩ (if c = '\'' then ['\'', '\\', '\'', '\''] else [c])
        = some ⟨done, .single (w ++ [.quoted c])⟩ := by
      split
      · -- out of the quotes, a quote behind a backslash, and in again
        next hc =>
        rw [hc]
        rfl
      · next hc =>
        rw [lexFrom_cons]
        show ((if c = '\'' then _ else _) : Option Lexer).bind _ = _
        rw [if_neg hc]
        rfl
    rw [hone]
    show lexFrom ⟨done, .single (w ++ [.quoted c])⟩ _ = _
    rw [ih, List.append_assoc]
    rfl

/-- **A quoted text is one word**, all of it quoted, wherever a word may begin. -/
theorem lexFrom_quoted (done : List Token) (text : List Char) :
    lexFrom ⟨done, .base none⟩ (singleQuote text)
      = some ⟨done, .base (some (text.map .quoted))⟩ := by
  show lexFrom ⟨done, .single []⟩ _ = _
  exact lexFrom_single done [] text

/-- No meaning to the shell, in any place of a word. -/
def isOrdinary (c : Char) : Bool :=
  c.isAlphanum || c == '_' || c == '-' || c == '.' || c == '/' || c == '+'

/-- The characters a shell takes as other than themselves. -/
def special : List Char :=
  ['\'', '"', '\\', '\x60', '$', ' ', '\t', '\n', ';', '|', '&', '(', ')', '<', '>', '#'] ++
    expanding

theorem not_ordinary_of_special : special.all (fun c => !isOrdinary c) = true := by decide

theorem ne_of_isOrdinary {d : Char} (hc : isOrdinary c = true) (hd : d ∈ special) : c ≠ d := by
  intro heq
  have hall := List.all_eq_true.mp not_ordinary_of_special d hd
  rw [← heq, hc] at hall
  cases hall

theorem stepBase_ordinary (hc : isOrdinary c = true) (done : List Token) (w : Option Word) :
    stepBase done w c = some ⟨done, .base (some (w.getD [] ++ [.plain c]))⟩ := by
  have hne : ∀ d ∈ special, c ≠ d := fun d hd => ne_of_isOrdinary hc hd
  have hblank : isBlank c = false := by
    unfold isBlank
    rw [Bool.or_eq_false_iff]
    exact ⟨beq_false_of_ne (hne _ (by decide)), beq_false_of_ne (hne _ (by decide))⟩
  have hoperator : isOperatorStart c = false := by
    unfold isOperatorStart
    rw [List.contains_eq_mem, decide_eq_false_iff_not]
    intro hmem
    have hsingle : c ∈ [';', '|', '&', '(', ')', '<', '>', '\n'] := by
      simpa [operators] using hmem
    have hspecial : c ∈ special := by
      simp only [List.mem_cons, List.not_mem_nil, or_false] at hsingle
      rcases hsingle with rfl | rfl | rfl | rfl | rfl | rfl | rfl | rfl
      all_goals decide
    exact hne c hspecial rfl
  unfold stepBase
  rw [if_neg (hne _ (by decide)), if_neg (hne _ (by decide)), if_neg (hne _ (by decide)),
    if_neg (hne _ (by decide)), if_neg (hne _ (by decide)), hblank, if_neg Bool.false_ne_true,
    hoperator, if_neg Bool.false_ne_true, if_neg fun h => hne _ (by decide) h.1]

theorem lexFrom_ordinary (done : List Token) (w : Word) (h : ∀ c ∈ text, isOrdinary c = true) :
    lexFrom ⟨done, .base (some w)⟩ text = some ⟨done, .base (some (w ++ text.map .plain))⟩ := by
  induction text generalizing w with
  | nil =>
    rw [List.map_nil, List.append_nil]
    rfl
  | cons c text ih =>
    obtain ⟨hc, htext⟩ := List.forall_mem_cons.mp h
    rw [lexFrom_cons]
    show (stepBase done (some w) c).bind _ = _
    rw [stepBase_ordinary hc]
    show lexFrom ⟨done, .base (some (w ++ [.plain c]))⟩ text = _
    rw [ih _ htext, List.append_assoc]
    rfl

/-- **A text of ordinary characters is one word**, wherever a word may begin. -/
theorem lexFrom_plain (done : List Token) (hne : text ≠ []) (h : ∀ c ∈ text, isOrdinary c = true) :
    lexFrom ⟨done, .base none⟩ text = some ⟨done, .base (some (text.map .plain))⟩ := by
  cases text with
  | nil => exact absurd rfl hne
  | cons c text =>
    obtain ⟨hc, htext⟩ := List.forall_mem_cons.mp h
    rw [lexFrom_cons]
    show (stepBase done none c).bind _ = _
    rw [stepBase_ordinary hc]
    exact lexFrom_ordinary done _ htext

/-- Ordinary characters between the brackets of a process substitution. -/
theorem lexFrom_process (done : List Token) (direction : Char) (depth : Nat) (before : List Char)
    (h : ∀ c ∈ text, isOrdinary c = true) :
    lexFrom ⟨done, .process direction depth before⟩ text
      = some ⟨done, .process direction depth (before ++ text)⟩ := by
  induction text generalizing before with
  | nil =>
    rw [List.append_nil]
    rfl
  | cons c text ih =>
    obtain ⟨hc, htext⟩ := List.forall_mem_cons.mp h
    have hne : ∀ d ∈ special, c ≠ d := fun d hd => ne_of_isOrdinary hc hd
    have hstep : step ⟨done, .process direction depth before⟩ c
        = some ⟨done, .process direction depth (before ++ [c])⟩ := by
      unfold step
      dsimp only
      rw [if_neg, if_neg (hne _ (by decide)), if_neg (hne _ (by decide))]
      simp [hne '\'' (by decide), hne '"' (by decide), hne '\\' (by decide), hne '\x60' (by decide),
        hne '$' (by decide), hne '#' (by decide)]
    rw [lexFrom_cons, hstep]
    show lexFrom ⟨done, .process direction depth (before ++ [c])⟩ text = _
    rw [ih _ htext, List.append_assoc]
    rfl

/-! ## Tokens stay

Reading on only adds tokens in front of those there are. -/

theorem stepBase_done {done : List Token} {w : Option Word} (h : stepBase done w c = some s) :
    done <:+ s.done := by
  have hword : done <:+ endWord done c w := by
    cases w with
    | none => exact List.suffix_rfl
    | some w => exact List.suffix_cons _ _
  unfold stepBase at h
  split_ifs at h
  all_goals
    obtain rfl := Option.some.inj h
    first
      | exact List.suffix_rfl
      | exact hword

theorem stepDouble_done {done : List Token} {w : Word} (h : stepDouble done w c = some s) :
    s.done = done := by
  unfold stepDouble at h
  split_ifs at h
  all_goals
    obtain rfl := Option.some.inj h
    rfl

theorem step_done {s' : Lexer} (h : step s c = some s') : s.done <:+ s'.done := by
  obtain ⟨done, mode⟩ := s
  cases mode with
  | base w => exact stepBase_done h
  | double w => exact (stepDouble_done h) ▸ List.suffix_rfl
  | comment =>
    dsimp only [step] at h
    split_ifs at h
    · exact stepBase_done h
    · obtain rfl := Option.some.inj h
      exact List.suffix_rfl
  | dollar w =>
    dsimp only [step] at h
    split_ifs at h
    exact stepBase_done h
  | doubleDollar w =>
    dsimp only [step] at h
    split_ifs at h
    exact (stepDouble_done h) ▸ List.suffix_rfl
  | operator text glued =>
    dsimp only [step] at h
    split_ifs at h
    iterate 2
      obtain rfl := Option.some.inj h
      exact List.suffix_rfl
    · -- the operator is a token now, and `c` is read as if it came first
      obtain ⟨done', hemit, hbase⟩ := Option.bind_eq_some_iff.mp h
      unfold emitOp at hemit
      split_ifs at hemit
      obtain rfl := Option.some.inj hemit
      exact (List.suffix_cons _ _).trans (stepBase_done hbase)
  | single w | escape w | doubleEscape w | process direction depth text =>
    dsimp only [step] at h
    split_ifs at h
    all_goals
      obtain rfl := Option.some.inj h
      exact List.suffix_rfl

theorem lexFrom_done {s' : Lexer} (h : lexFrom s text = some s') : s.done <:+ s'.done := by
  induction text generalizing s with
  | nil =>
    obtain rfl := Option.some.inj h
    exact List.suffix_rfl
  | cons c text ih =>
    rw [lexFrom_cons] at h
    obtain ⟨s'', hstep, hrest⟩ := Option.bind_eq_some_iff.mp h
    exact (step_done hstep).trans (ih hrest)

theorem finish_done {tokens : List Token} (h : finish s = some tokens) :
    s.done.reverse <+: tokens := by
  obtain ⟨done, mode⟩ := s
  unfold finish at h
  split at h
  iterate 4
    obtain rfl := Option.some.inj h
    simp
  · obtain ⟨done', hemit, rfl⟩ := Option.map_eq_some_iff.mp h
    unfold emitOp at hemit
    split_ifs at hemit
    obtain rfl := Option.some.inj hemit
    rw [List.reverse_cons]
    exact List.prefix_append _ _
  · cases h

/-- Ends a word. -/
def isDelimiter (c : Char) : Bool := isBlank c || isOperatorStart c

/-- A quoted word is never the number of a redirection. -/
theorem wordToken_quoted (text : List Char) (c : Char) :
    wordToken (text.map .quoted) c = .word (text.map .quoted) := by
  unfold wordToken
  have hdigits : (text.map Piece.quoted).filterMap Piece.digit? = [] := by
    rw [List.filterMap_eq_nil_iff]
    intro piece hpiece
    obtain ⟨d, -, rfl⟩ := List.mem_map.mp hpiece
    rfl
  dsimp only
  rw [hdigits, if_neg]
  intro hall
  rw [Bool.and_eq_true, Bool.and_eq_true] at hall
  cases text with
  | nil => exact Bool.noConfusion hall.1.2
  | cons d text => exact Bool.noConfusion hall.2

/-- A delimiter behind a quoted word makes it a token. -/
theorem step_delimiter (hc : isDelimiter c = true) (done : List Token) (text : List Char) :
    ∃ mode, step ⟨done, .base (some (text.map .quoted))⟩ c
      = some ⟨.word (text.map .quoted) :: done, mode⟩ := by
  have hne : ∀ d, isDelimiter d = false → c ≠ d := by
    intro d hd heq
    rw [heq, hd] at hc
    cases hc
  have hstep : step ⟨done, .base (some (text.map .quoted))⟩ c
      = if isBlank c then some ⟨.word (text.map .quoted) :: done, .base none⟩
        else if isOperatorStart c then
          some ⟨.word (text.map .quoted) :: done, .operator [c] true⟩
        else if c = '#' ∧ (some (text.map Piece.quoted)) = none then some ⟨done, .comment⟩
        else some ⟨done, .base (some (text.map .quoted ++ [.plain c]))⟩ := by
    show stepBase done (some (text.map .quoted)) c = _
    unfold stepBase
    rw [if_neg (hne _ (by decide)), if_neg (hne _ (by decide)), if_neg (hne _ (by decide)),
      if_neg (hne _ (by decide)), if_neg (hne _ (by decide))]
    rw [endWord, wordToken_quoted]
    rfl
  rw [hstep]
  unfold isDelimiter at hc
  rw [Bool.or_eq_true] at hc
  rcases hc with hblank | hoperator
  · exact ⟨_, if_pos hblank⟩
  · by_cases hblank : isBlank c = true
    · exact ⟨_, if_pos hblank⟩
    · exact ⟨_, (if_neg hblank).trans (if_pos hoperator)⟩

/-! ## What words stand for -/

theorem field_quoted (text : List Char) : field (text.map .quoted) = some text := by
  unfold field
  induction text with
  | nil => rfl
  | cons c text ih =>
    rw [List.map_cons, List.mapM_cons, ih]
    rfl

theorem field_plain (h : ∀ c ∈ text, isOrdinary c = true) :
    field (text.map .plain) = some text := by
  unfold field
  induction text with
  | nil => rfl
  | cons c text ih =>
    obtain ⟨hc, htext⟩ := List.forall_mem_cons.mp h
    have hfixed : (Piece.plain c).fixed = some c := by
      unfold Piece.fixed
      dsimp only
      rw [if_neg]
      intro hexpanding
      have hmem : c ∈ special := List.mem_append_right _ (List.contains_iff_mem.mp hexpanding)
      exact ne_of_isOrdinary hc hmem rfl
    rw [List.map_cons, List.mapM_cons, ih htext, hfixed]
    rfl

/-! ## Commands from tokens -/

/-- Tokens that are read to their end, and what follows them. -/
theorem readFrom_append {r r' : Reader} {tokens : List Token} (rest : List Token)
    (h : tokens.foldlM Reader.step r = some r') :
    readFrom r (tokens ++ rest) = readFrom r' rest := by
  induction tokens generalizing r with
  | nil =>
    obtain rfl := Option.some.inj h
    rfl
  | cons token tokens ih =>
    rw [List.foldlM_cons] at h
    cases hstep : r.step token with
    | none =>
      rw [hstep] at h
      cases h
    | some r'' =>
      rw [hstep] at h
      rw [List.cons_append, readFrom, hstep]
      exact ih h

end Shell
