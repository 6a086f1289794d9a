import Mathlib.Data.List.Basic

/-!
# Vault — reading a command's output (`vault/src/store.rs`, `assuan.rs`)

What the helper looks for in the text a command printed: a session key, or the data line of a
`pinentry` answer.

* **`trim`**, **`lines`**, **`replace`** — the string functions of the standard library it uses.
* **`extractSession`** — the session key in the output of `bw unlock` or `bw login`.
* **`decode`** — an Assuan data line.
-/

namespace QsBitwarden.Vault

/-! ## Texts -/

/-- `char::is_whitespace`. -/
def isWhitespace (c : Char) : Bool :=
  let n := c.toNat
  (9 ≤ n && n ≤ 13) || n == 0x20 || n == 0x85 || n == 0xa0 || n == 0x1680
    || (0x2000 ≤ n && n ≤ 0x200a) || n == 0x2028 || n == 0x2029 || n == 0x202f || n == 0x205f
    || n == 0x3000

def trimEndMatches (p : Char → Bool) (text : List Char) : List Char :=
  (text.reverse.dropWhile p).reverse

def trim (text : List Char) : List Char := trimEndMatches isWhitespace (text.dropWhile isWhitespace)

/-- What follows the first occurrence of `pattern`. -/
def afterFirst (pattern : List Char) : List Char → Option (List Char)
  | [] => if pattern.isEmpty then some [] else none
  | c :: rest =>
    if pattern.isPrefixOf (c :: rest) then some ((c :: rest).drop pattern.length)
    else afterFirst pattern rest

/-- `str::contains`. -/
def contains (text pattern : List Char) : Bool := (afterFirst pattern text).isSome

/-- `str::lines`: a line may end in `\n` or `\r\n`, and the last line need not end. -/
def lines (text : List Char) : List (List Char) :=
  let pieces := text.splitOn '\n'
  let ended := (pieces.dropLast.map fun line =>
    if line.getLast? = some '\r' then line.dropLast else line)
  match pieces.getLast? with
  | some [] | none => ended
  | some last => ended ++ [last]

/-- `str::replace`, for a pattern that is not empty. `skip` characters belong to an occurrence
already replaced. -/
def replaceFrom (pattern by' : List Char) : Nat → List Char → List Char
  | _, [] => []
  | skip + 1, _ :: rest => replaceFrom pattern by' skip rest
  | 0, c :: rest =>
    if pattern.isPrefixOf (c :: rest) then
      by' ++ replaceFrom pattern by' (pattern.length - 1) rest
    else c :: replaceFrom pattern by' 0 rest

def replace (text pattern by' : String) : String :=
  String.ofList (replaceFrom pattern.toList by'.toList 0 text.toList)

/-! ## Session keys -/

def isTokenChar (c : Char) : Bool :=
  c.isAlphanum || c == '+' || c == '/' || c == '=' || c == '_' || c == '-'

/-- A session key as `bw` prints one. Its length counts bytes, which are characters here. -/
def isSessionToken (value : List Char) : Bool := 32 ≤ value.length && value.all isTokenChar

/-- `export BW_SESSION="..."`, else the first line that is a key. -/
def extractSession (raw : String) : Option String :=
  let text := trim raw.toList
  let line := (lines text).map trim |>.find? isSessionToken
  let named := do
    let rest ← afterFirst "BW_SESSION=".toList text
    let value := (rest.dropWhile (· == '"')).takeWhile fun c => c != '"' && c != '\n' && c != '\r'
    if isSessionToken (trim value) then some (trim value) else none
  (named.or line).map String.ofList

/-! ## Assuan data -/

def hexDigit? (b : UInt8) : Option Nat :=
  if 48 ≤ b && b ≤ 57 then some (b.toNat - 48)
  else if 65 ≤ b && b ≤ 70 then some (b.toNat - 55)
  else if 97 ≤ b && b ≤ 102 then some (b.toNat - 87)
  else none

/-- `%XX` stands for a byte; no byte may be zero. -/
def decodeBytes : List UInt8 → Option (List UInt8)
  | [] => some []
  | b :: rest =>
    if b = 37 then
      match rest with
      | high :: low :: rest => do
        let high ← hexDigit? high
        let low ← hexDigit? low
        let byte := UInt8.ofNat (high * 16 + low)
        if byte = 0 then none else (byte :: ·) <$> decodeBytes rest
      | _ => none
    else if b = 0 then none
    else (b :: ·) <$> decodeBytes rest

/-- The text of a data line, if it is one and is UTF-8. -/
def decode (encoded : String) : Option String :=
  match decodeBytes encoded.toUTF8.toList with
  | none => none
  | some bytes => String.fromUTF8? ⟨bytes.toArray⟩

end QsBitwarden.Vault
