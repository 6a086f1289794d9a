import Mathlib.Algebra.Order.Ring.Int
import QsBitwarden.Lib.Utf8

/-!
# Vault — one-time codes (`vault/src/totp.rs`)

The helper computes the code of an item's key. A key is an `otpauth://` URI, a `steam://` secret or
a bare secret; a key the helper does not read exactly as the vendor's reader does has no code here,
and the panel asks `bw`.

* **`Macs`** — the two keyed hashes. Both codes and hashes are the same whichever program computes
  them, so they are a parameter; a digest carries the length that dynamic truncation needs.
* **`formDecode`**, **`parseU32`**, **`base32`** — the pieces of a key.
* **`readOtpauth`**, **`parseKey`** — the key as a whole. `readOtpauth` stops before the secret's
  text is decoded.
* **`derive`**, **`generate`** — the code for a counter and for a time.
-/

namespace QsBitwarden.Vault.Totp

/-! ## Hashes -/

/-- A digest of at least twenty bytes: SHA-1's length, and less than SHA-256's. -/
structure Digest where
  bytes : List UInt8
  long : 20 ≤ bytes.length

structure Macs where
  sha1 : (key message : List UInt8) → Digest
  sha256 : (key message : List UInt8) → Digest

/-- `hash[hash.len() - 1] & 15`. -/
def Digest.offset (hash : Digest) : Fin 16 :=
  let last := hash.bytes.getLast (List.ne_nil_of_length_pos (Nat.lt_of_lt_of_le (by decide) hash.long))
  ⟨last.toNat &&& 15, Nat.and_lt_two_pow (n := 4) _ (by decide)⟩

/-- A code is made of four bytes of a digest. -/
instance neZero_four : NeZero 4 := ⟨Nat.succ_ne_zero 3⟩

/-- `hash[offset + k]`. -/
def Digest.byte (hash : Digest) (k : Fin 4) : Nat :=
  (hash.bytes.get ⟨hash.offset + k, by have := hash.long; omega⟩).toNat

/-! ## Keys -/

def base32Chars : List UInt8 :=
  "ABCDEFGHIJKLMNOPQRSTUVWXYZ234567".toList.map fun c => UInt8.ofNat c.toNat

def steamChars : List Char := "23456789BCDFGHJKMNPQRTVWXY".toList

def defaultDigits : Nat := 6

def defaultPeriod : Nat := 30

inductive Algorithm where
  | sha1
  | sha256
  | steam
deriving DecidableEq, Repr

structure Params where
  algorithm : Algorithm
  digits : Nat
  period : Nat
  secret : List UInt8
deriving DecidableEq, Repr

/-- An `otpauth` key, its secret still a text. -/
structure Otpauth where
  algorithm : Algorithm
  digits : Nat
  period : Nat
  secret : List Char
deriving DecidableEq, Repr

def hexDigit (c : Char) : Option Nat :=
  if '0' ≤ c ∧ c ≤ '9' then some (c.toNat - 48)
  else if 'A' ≤ c ∧ c ≤ 'F' then some (c.toNat - 55)
  else if 'a' ≤ c ∧ c ≤ 'f' then some (c.toNat - 87)
  else none

/-- The byte that two hexadecimal digits are. -/
def octet (high low : Char) : Option UInt8 := do
  let high ← hexDigit high
  let low ← hexDigit low
  some (UInt8.ofNat (high * 16 + low))

/-- The bytes `formDecode` collects: `+` is a blank, `%` needs two hexadecimal digits. -/
def percentBytes : List Char → Option (List UInt8)
  | [] => some []
  | c :: rest =>
    if c = '+' then (0x20 :: ·) <$> percentBytes rest
    else if c = '%' then
      match rest with
      | high :: low :: rest => do
        let b ← octet high low
        (b :: ·) <$> percentBytes rest
      | _ => none
    else (String.utf8EncodeChar c ++ ·) <$> percentBytes rest

def formDecode (input : List Char) : Option (List Char) := (percentBytes input).bind Utf8.fromUtf8

/-- The digits of a `u32`, read from the left with overflow checks. -/
def readDigits (value : Nat) : List Char → Option Nat
  | [] => some value
  | c :: rest =>
    if c.isDigit then
      let next := value * 10 + (c.toNat - 48)
      if next < 2 ^ 32 then readDigits next rest else none
    else none

/-- `str::parse::<u32>()`: one `+` may stand in front of at least one digit. -/
def parseU32 : List Char → Option Nat
  | [] => none
  | ['+'] => none
  | '+' :: digits => readDigits 0 digits
  | digits => readDigits 0 digits

def toAsciiUppercase (b : UInt8) : UInt8 := if 97 ≤ b ∧ b ≤ 122 then b - 32 else b

/-- The bits read so far that do not fill a byte, their number, and the bytes they filled. -/
structure Bits where
  buffer : Nat := 0
  bits : Nat := 0
  out : List UInt8 := []
deriving DecidableEq, Repr

/-- Five more bits. -/
def Bits.feed (s : Bits) (index : Nat) : Bits :=
  let buffer := ((s.buffer <<< 5) ||| index) &&& 0xffff
  let bits := s.bits + 5
  if 8 ≤ bits then
    { buffer := buffer, bits := bits - 8,
      out := s.out ++ [UInt8.ofNat ((buffer >>> (bits - 8)) &&& 0xff)] }
  else { s with buffer := buffer, bits := bits }

/-- Bytes outside the alphabet are dropped, and so are bits that do not fill a byte. -/
def base32 (input : List Char) : List UInt8 :=
  ((Utf8.encode input).foldl (fun s byte =>
    match base32Chars.idxOf? (toAsciiUppercase byte) with
    | some index => s.feed index
    | none => s) ({} : Bits)).out

/-- What the query has said so far. -/
structure Query where
  secret : Option (List Char) := none
  algorithm : Option (List Char) := none
  digits : Option (List Char) := none
  period : Option (List Char) := none
deriving DecidableEq, Repr

/-- The last duplicate wins. -/
def Query.note (q : Query) (name value : List Char) : Query :=
  if name = "secret".toList then { q with secret := some value }
  else if name = "algorithm".toList then { q with algorithm := some value }
  else if name = "digits".toList then { q with digits := some value }
  else if name = "period".toList then { q with period := some value }
  else q

/-- A text around the first `mark`, or all of it and nothing. -/
def cutAt (mark : Char) (text : List Char) : List Char × List Char :=
  match text.idxOf? mark with
  | some at' => (text.take at', text.drop (at' + 1))
  | none => (text, [])

def readPairs (q : Query) : List (List Char) → Option Query
  | [] => some q
  | pair :: rest => do
    let (name, value) := cutAt '=' pair
    let name ← formDecode name
    let value ← formDecode value
    readPairs (q.note name value) rest

def isHostChar (c : Char) : Bool := c.isLower || c.isDigit || "._~-".toList.contains c

def isBlankOrControl (c : Char) : Bool :=
  [' ', '\t', '\n', '\x0c', '\r'].contains c || c.toNat < 0x20 || c.toNat == 0x7f

/-- `SHA-512` is left to `bw`. -/
def Query.algorithmUsed (q : Query) : Option Algorithm :=
  if q.algorithm = some "sha256".toList then some .sha256
  else if q.algorithm = some "sha512".toList then none
  else some .sha1

def Query.digitsUsed (q : Query) : Nat :=
  match q.digits.bind parseU32 with
  | some d => min d 10
  | none => defaultDigits

def Query.periodUsed (q : Query) : Nat :=
  match q.period.bind parseU32 with
  | some p => max p 1
  | none => defaultPeriod

/-- What a whole query asks for. Zero and ten digits are left to `bw`. -/
def Query.settle (q : Query) : Option Otpauth := do
  let secret ← q.secret
  let algorithm ← q.algorithmUsed
  if 1 ≤ q.digitsUsed ∧ q.digitsUsed ≤ 9 then
    some { algorithm, digits := q.digitsUsed, period := q.periodUsed, secret }
  else none

/-- `parse_otpauth` up to the decoding of its secret. -/
def readOtpauth (rest : List Char) : Option Otpauth :=
  let rest := (rest.splitOn '#').headD []
  let (path, query) := cutAt '?' rest
  let authority := (path.splitOn '/').headD []
  if !authority.all isHostChar then none
  else if rest.any isBlankOrControl then none
  else (readPairs {} ((query.splitOn '&').filter (!·.isEmpty))).bind Query.settle

def parseOtpauth (rest : List Char) : Option Params :=
  (readOtpauth rest).map fun o =>
    { algorithm := o.algorithm, digits := o.digits, period := o.period, secret := base32 o.secret }

def otpauthScheme : List Char := "otpauth://".toList

def steamScheme : List Char := "steam://".toList

def isAscii (key : List Char) : Bool := key.all (·.toNat < 128)

def parseKey (key : List Char) : Option Params :=
  if key.isEmpty || !isAscii key then none
  else
    let lower := key.map Char.toLower
    if otpauthScheme.isPrefixOf lower then parseOtpauth (lower.drop otpauthScheme.length)
    else if steamScheme.isPrefixOf lower then
      some { algorithm := .steam, digits := 5, period := defaultPeriod,
             secret := base32 (lower.drop steamScheme.length) }
    else
      some { algorithm := .sha1, digits := defaultDigits, period := defaultPeriod,
             secret := base32 lower }

/-! ## Codes -/

/-- `u64::to_be_bytes`. -/
def toBeBytes (counter : Nat) : List UInt8 :=
  [7, 6, 5, 4, 3, 2, 1, 0].map fun i => UInt8.ofNat (counter / 256 ^ i)

theorem length_steamChars : steamChars.length = 26 := by decide

/-- One character of the alphabet for each digit in base 26, the lowest first. -/
def steamCode : Nat → Nat → List Char
  | 0, _ => []
  | digits + 1, full =>
    steamChars.get ⟨full % 26, by rw [length_steamChars]; exact Nat.mod_lt _ (by decide)⟩
      :: steamCode digits (full / 26)

/-- `{:0width$}`. -/
def zeroPadded (width n : Nat) : List Char :=
  List.replicate (width - (Nat.toDigits 10 n).length) '0' ++ Nat.toDigits 10 n

def Digest.binary (hash : Digest) : Nat :=
  ((hash.byte 0 &&& 127) <<< 24) ||| (hash.byte 1 <<< 16) ||| (hash.byte 2 <<< 8) ||| hash.byte 3

def derive (macs : Macs) (params : Params) (counter : Nat) : List Char :=
  let time := toBeBytes counter
  let hash := match params.algorithm with
    | .sha256 => macs.sha256 params.secret time
    | .sha1 | .steam => macs.sha1 params.secret time
  if params.algorithm = .steam then steamCode params.digits hash.binary
  else zeroPadded params.digits (hash.binary % 10 ^ params.digits)

/-- The code of `key` at a time in seconds, and its period. -/
def generate (macs : Macs) (key : String) (nowSecs : Nat) : Option (String × Nat) := do
  let params ← parseKey key.toList
  let counter := nowSecs / params.period
  some (String.ofList (derive macs params counter), params.period)

end QsBitwarden.Vault.Totp
