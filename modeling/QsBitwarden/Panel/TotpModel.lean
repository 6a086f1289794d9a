import QsBitwarden.Lib.Double
import QsBitwarden.Panel.SessionKeys
import QsBitwarden.Vault.Totp

/-!
# Panel — one-time codes (`TotpModel.js`)

The panel's own reader of a code's key, for a key it holds itself. It is written to give what the
helper gives.

* **`Casing`** — `toUpperCase` of a character. Outside ASCII it is Unicode's, which is a parameter:
  the reader only looks for letters of the base32 alphabet in the result.
* **`decodeURIComponent`**, **`formDecode`**, **`parseU32`**, **`decodeBase32`** — the pieces of a
  key.
* **`readOtpauth`**, **`parseKey`** — the key as a whole.
* **`deriveOtp`**, **`generate`** — the code for a counter and for a time in milliseconds. Numbers
  are doubles, so a division is followed by the floor of a rounded quotient.
* **`hmac`**, **`sha1`**, **`sha256`**, **`jsMacs`** — the keyed hashes. A word is what the unsigned
  shift makes of it.
-/

namespace QsBitwarden.Panel.TotpModel

open Vault.Totp (Algorithm Params Otpauth Digest Macs)

/-! ## Keys -/

/-- `toUpperCase`, which maps a character to one or more. -/
structure Casing where
  upper : Char → List Char
  ascii : ∀ c : Char, c.toNat < 128 → upper c = [c.toUpper]

def base32Chars : List Char := "ABCDEFGHIJKLMNOPQRSTUVWXYZ234567".toList

def steamChars : List Char := "23456789BCDFGHJKMNPQRTVWXY".toList

def defaultDigits : Nat := 6

def defaultPeriod : Nat := 30

def hexDigit (c : Char) : Option Nat :=
  if '0' ≤ c ∧ c ≤ '9' then some (c.toNat - 48)
  else if 'A' ≤ c ∧ c ≤ 'F' then some (c.toNat - 55)
  else if 'a' ≤ c ∧ c ≤ 'f' then some (c.toNat - 87)
  else none

def octet (high low : Char) : Option UInt8 := do
  let high ← hexDigit high
  let low ← hexDigit low
  some (UInt8.ofNat (high * 16 + low))

/-- `%XX`, and what follows it. -/
def readOctet : List Char → Option (UInt8 × List Char)
  | mark :: high :: low :: rest => if mark = '%' then (octet high low).map (·, rest) else none
  | _ => none

def readOctets : Nat → List Char → Option (List UInt8 × List Char)
  | 0, rest => some ([], rest)
  | n + 1, text => do
    let (b, rest) ← readOctet text
    let (bs, rest) ← readOctets n rest
    some (b :: bs, rest)

/-- The code point that one whole UTF-8 sequence is. -/
def codePoint (bytes : List UInt8) : Option Char :=
  match Utf8.fromUtf8 bytes with
  | some [c] => some c
  | _ => none

/-- `Decode` of the language's specification. A step reads at least one character, so a text's
length is fuel enough. -/
def decodeFrom : Nat → List Char → Option (List Char)
  | _, [] => some []
  | 0, _ :: _ => none
  | fuel + 1, c :: text =>
    if c = '%' then do
      let (lead, rest) ← readOctet (c :: text)
      if Utf8.octets lead = 0 then none
      else
        let (tail, rest) ← readOctets (Utf8.octets lead - 1) rest
        let point ← codePoint (lead :: tail)
        (point :: ·) <$> decodeFrom fuel rest
    else (c :: ·) <$> decodeFrom fuel text

/-- `none` where it throws. -/
def decodeURIComponent (text : List Char) : Option (List Char) := decodeFrom text.length text

def plusToBlank (c : Char) : Char := if c = '+' then ' ' else c

def formDecode (text : List Char) : Option (List Char) := decodeURIComponent (text.map plusToBlank)

/-- `Number` of digits. Above `2 ^ 53` it is not exact, but its order to `2 ^ 32` is. -/
def number (digits : List Char) : Nat := digits.foldl (fun n c => n * 10 + (c.toNat - 48)) 0

def parseU32 (value : List Char) : Option Nat :=
  let digits := if value.head? = some '+' then value.tail else value
  if digits.isEmpty || !digits.all Char.isDigit then none
  else if number digits ≤ 4294967295 then some (number digits) else none

structure Bits where
  buffer : Nat := 0
  bits : Nat := 0
  bytes : List UInt8 := []

def Bits.feed (s : Bits) (idx : Nat) : Bits :=
  let buffer := ((s.buffer <<< 5) ||| idx) &&& 0xffff
  let bits := s.bits + 5
  if 8 ≤ bits then
    { buffer := buffer, bits := bits - 8,
      bytes := s.bytes ++ [UInt8.ofNat ((buffer >>> (bits - 8)) &&& 0xff)] }
  else { s with buffer := buffer, bits := bits }

def decodeBase32 (casing : Casing) (text : List Char) : List UInt8 :=
  ((text.flatMap casing.upper).foldl (fun s c =>
    match base32Chars.idxOf? c with
    | some idx => s.feed idx
    | none => s) ({} : Bits)).bytes

/-- `i === -1 ? text : text.slice(0, i)`. -/
def sliceTo (text : List Char) : Option Nat → List Char
  | none => text
  | some i => text.take i

/-- `i === -1 ? "" : text.slice(i + 1)`. -/
def sliceAfter (text : List Char) : Option Nat → List Char
  | none => []
  | some i => text.drop (i + 1)

/-- `parts`, an object: a name's last value. -/
abbrev Parts := List Char → Option (List Char)

def Parts.set (parts : Parts) (name value : List Char) : Parts :=
  fun other => if other = name then some value else parts other

def readPairs (parts : Parts) : List (List Char) → Option Parts
  | [] => some parts
  | pair :: rest =>
    if pair.isEmpty then readPairs parts rest
    else do
      let eq := pair.idxOf? '='
      let name ← formDecode (sliceTo pair eq)
      let value ← formDecode (sliceAfter pair eq)
      readPairs (parts.set name value) rest

/-- `/^[a-z0-9._~-]*$/`. -/
def isHostChar (c : Char) : Bool := c.isLower || c.isDigit || "._~-".toList.contains c

/-- `/[\s\x00-\x1f\x7f]/`. -/
def isBlankOrControl (c : Char) : Bool :=
  SessionKeys.jsWhitespace c || c.toNat < 0x20 || c.toNat == 0x7f

def Parts.algorithmUsed (parts : Parts) : Option Algorithm :=
  if parts "algorithm".toList = some "sha256".toList then some .sha256
  else if parts "algorithm".toList = some "sha512".toList then none
  else some .sha1

def Parts.digitsUsed (parts : Parts) : Nat :=
  match (parts "digits".toList).bind parseU32 with
  | none => defaultDigits
  | some digits => min digits 10

def Parts.periodUsed (parts : Parts) : Nat :=
  match (parts "period".toList).bind parseU32 with
  | none => defaultPeriod
  | some period => max period 1

def Parts.settle (parts : Parts) : Option Otpauth := do
  let secret ← parts "secret".toList
  let algorithm ← parts.algorithmUsed
  if parts.digitsUsed < 1 ∨ 9 < parts.digitsUsed then none
  else some { algorithm, digits := parts.digitsUsed, period := parts.periodUsed, secret }

/-- `parseOtpauth` up to the decoding of its secret. -/
def readOtpauth (rest : List Char) : Option Otpauth :=
  let rest := sliceTo rest (rest.idxOf? '#')
  let q := rest.idxOf? '?'
  let authority := ((sliceTo rest q).splitOn '/').headD []
  if !authority.all isHostChar then none
  else if rest.any isBlankOrControl then none
  else (readPairs (fun _ => none) ((sliceAfter rest q).splitOn '&')).bind Parts.settle

def parseOtpauth (casing : Casing) (rest : List Char) : Option Params :=
  (readOtpauth rest).map fun o =>
    { algorithm := o.algorithm, digits := o.digits, period := o.period,
      secret := decodeBase32 casing o.secret }

def parseKey (casing : Casing) (key : List Char) : Option Params :=
  if key.isEmpty then none
  else if key.any (128 ≤ ·.toNat) then none
  else
    let k := key.map Char.toLower
    if "otpauth://".toList.isPrefixOf k then parseOtpauth casing (k.drop "otpauth://".length)
    else if "steam://".toList.isPrefixOf k then
      some { algorithm := .steam, digits := 5, period := defaultPeriod,
             secret := decodeBase32 casing (k.drop "steam://".length) }
    else
      some { algorithm := .sha1, digits := defaultDigits, period := defaultPeriod,
             secret := decodeBase32 casing k }

/-! ## Codes -/

/-- `x >>> (i * 8) & 0xff` for each `i` from 3 down. -/
def wordBytes (x : Nat) : List UInt8 :=
  [3, 2, 1, 0].map fun i => UInt8.ofNat (((x % 2 ^ 32) >>> (i * 8)) &&& 0xff)

def counterBytes (counter : Nat) : List UInt8 :=
  wordBytes (Double.floorDiv counter 4294967296) ++ wordBytes (counter % 4294967296)

def binary (hash : Digest) : Nat :=
  (hash.byte 0 &&& 127) * 16777216 + (hash.byte 1 <<< 16) + (hash.byte 2 <<< 8) + hash.byte 3

def steamCode : Nat → Nat → List Char
  | 0, _ => []
  | digits + 1, full =>
    steamChars[full % steamChars.length]?.toList
      ++ steamCode digits (Double.floorDiv full steamChars.length)

/-- `otp = "0" + otp`, a number of times. -/
def padZeros : Nat → List Char → List Char
  | 0, otp => otp
  | n + 1, otp => padZeros n ('0' :: otp)

def deriveOtp (macs : Macs) (params : Params) (counter : Nat) : List Char :=
  let time := counterBytes counter
  let hash := (if params.algorithm = .sha256 then macs.sha256 else macs.sha1) params.secret time
  if params.algorithm = .steam then steamCode params.digits (binary hash)
  else
    let otp := Nat.toDigits 10 (binary hash % 10 ^ params.digits)
    padZeros (params.digits - otp.length) otp

/-- The code of `key` at a time in milliseconds, and its period. The counter is a whole number and
not negative, as a time is. -/
def generate (casing : Casing) (macs : Macs) (key : String) (nowMs : Nat) :
    Option (String × Nat) := do
  let params ← parseKey casing key.toList
  let counter := Double.floorDiv (Double.floorDiv nowMs 1000) params.period
  some (String.ofList (deriveOtp macs params counter), params.period)

/-! ## Hashes -/

/-- `0x80`, zeros up to eight bytes before a block's end, and the length in bits. -/
def padMessage (bytes : List UInt8) : List UInt8 :=
  let bitLength := bytes.length * 8
  let zeros := (120 - (bytes.length + 1) % 64) % 64
  bytes ++ [0x80] ++ List.replicate zeros 0
    ++ wordBytes (Double.floorDiv bitLength 4294967296) ++ wordBytes bitLength

def blocks (bytes : List UInt8) : List (List UInt8) :=
  (List.range (bytes.length / 64)).map fun i => (bytes.drop (64 * i)).take 64

/-- The sixteen words of a block. -/
def blockWords (block : List UInt8) : List Nat :=
  (List.range 16).map fun i =>
    let byte := fun k => (block.getD (i * 4 + k) 0).toNat
    (byte 0 <<< 24) ||| (byte 1 <<< 16) ||| (byte 2 <<< 8) ||| byte 3

def wordsToBytes (words : List Nat) : List UInt8 := words.flatMap wordBytes

def rotl (x n : Nat) : Nat := (x <<< n) % 2 ^ 32 ||| x >>> (32 - n)

def rotr (x n : Nat) : Nat := x >>> n ||| (x <<< (32 - n)) % 2 ^ 32

/-- `~x`. -/
def complement (x : Nat) : Nat := x ^^^ 0xffffffff

structure Sha1 where
  a : Nat
  b : Nat
  c : Nat
  d : Nat
  e : Nat

/-- `count` more words, each from the words before it. -/
def schedule (next : (Nat → Nat) → Nat) : Nat → List Nat → List Nat
  | 0, w => w.reverse
  -- `w` has the last word in front, so that `back k` is `w[t - k]`.
  | count + 1, w =>
    let back := fun k => w.getD (k - 1) 0
    schedule next count (next back :: w)

def sha1Schedule (words : List Nat) : List Nat :=
  schedule (fun back => rotl (back 3 ^^^ back 8 ^^^ back 14 ^^^ back 16) 1) 64 words.reverse

def Sha1.round (h : Sha1) (s w : Nat) : Sha1 :=
  let (f, k) :=
    if s < 20 then ((h.b &&& h.c) ||| (complement h.b &&& h.d), 0x5a827999)
    else if s < 40 then (h.b ^^^ h.c ^^^ h.d, 0x6ed9eba1)
    else if s < 60 then ((h.b &&& h.c) ||| (h.b &&& h.d) ||| (h.c &&& h.d), 0x8f1bbcdc)
    else (h.b ^^^ h.c ^^^ h.d, 0xca62c1d6)
  { a := (rotl h.a 5 + f + h.e + k + w) % 2 ^ 32, b := h.a, c := rotl h.b 30, d := h.c, e := h.d }

def Sha1.block (h : Sha1) (block : List UInt8) : Sha1 :=
  let r := (sha1Schedule (blockWords block)).zipIdx.foldl (fun r (w, s) => r.round s w) h
  { a := (h.a + r.a) % 2 ^ 32, b := (h.b + r.b) % 2 ^ 32, c := (h.c + r.c) % 2 ^ 32,
    d := (h.d + r.d) % 2 ^ 32, e := (h.e + r.e) % 2 ^ 32 }

def sha1 (bytes : List UInt8) : Digest :=
  let h := (blocks (padMessage bytes)).foldl Sha1.block
    { a := 0x67452301, b := 0xefcdab89, c := 0x98badcfe, d := 0x10325476, e := 0xc3d2e1f0 }
  { bytes := wordsToBytes [h.a, h.b, h.c, h.d, h.e], long := Nat.le_refl 20 }

structure Sha256 where
  a : Nat
  b : Nat
  c : Nat
  d : Nat
  e : Nat
  f : Nat
  g : Nat
  hh : Nat

def sha256K : List Nat := [
  0x428a2f98, 0x71374491, 0xb5c0fbcf, 0xe9b5dba5, 0x3956c25b, 0x59f111f1, 0x923f82a4, 0xab1c5ed5,
  0xd807aa98, 0x12835b01, 0x243185be, 0x550c7dc3, 0x72be5d74, 0x80deb1fe, 0x9bdc06a7, 0xc19bf174,
  0xe49b69c1, 0xefbe4786, 0x0fc19dc6, 0x240ca1cc, 0x2de92c6f, 0x4a7484aa, 0x5cb0a9dc, 0x76f988da,
  0x983e5152, 0xa831c66d, 0xb00327c8, 0xbf597fc7, 0xc6e00bf3, 0xd5a79147, 0x06ca6351, 0x14292967,
  0x27b70a85, 0x2e1b2138, 0x4d2c6dfc, 0x53380d13, 0x650a7354, 0x766a0abb, 0x81c2c92e, 0x92722c85,
  0xa2bfe8a1, 0xa81a664b, 0xc24b8b70, 0xc76c51a3, 0xd192e819, 0xd6990624, 0xf40e3585, 0x106aa070,
  0x19a4c116, 0x1e376c08, 0x2748774c, 0x34b0bcb5, 0x391c0cb3, 0x4ed8aa4a, 0x5b9cca4f, 0x682e6ff3,
  0x748f82ee, 0x78a5636f, 0x84c87814, 0x8cc70208, 0x90befffa, 0xa4506ceb, 0xbef9a3f7, 0xc67178f2]

def sha256Schedule (words : List Nat) : List Nat :=
  schedule (fun back =>
    let s0 := rotr (back 15) 7 ^^^ rotr (back 15) 18 ^^^ back 15 >>> 3
    let s1 := rotr (back 2) 17 ^^^ rotr (back 2) 19 ^^^ back 2 >>> 10
    (back 16 + s0 + back 7 + s1) % 2 ^ 32) 48 words.reverse

def Sha256.round (h : Sha256) (k w : Nat) : Sha256 :=
  let s1 := rotr h.e 6 ^^^ rotr h.e 11 ^^^ rotr h.e 25
  let ch := (h.e &&& h.f) ^^^ (complement h.e &&& h.g)
  let temp1 := (h.hh + s1 + ch + k + w) % 2 ^ 32
  let s0 := rotr h.a 2 ^^^ rotr h.a 13 ^^^ rotr h.a 22
  let maj := (h.a &&& h.b) ^^^ (h.a &&& h.c) ^^^ (h.b &&& h.c)
  let temp2 := (s0 + maj) % 2 ^ 32
  { a := (temp1 + temp2) % 2 ^ 32, b := h.a, c := h.b, d := h.c, e := (h.d + temp1) % 2 ^ 32,
    f := h.e, g := h.f, hh := h.g }

def Sha256.block (h : Sha256) (block : List UInt8) : Sha256 :=
  let r := (sha256K.zip (sha256Schedule (blockWords block))).foldl (fun r (k, w) => r.round k w) h
  { a := (h.a + r.a) % 2 ^ 32, b := (h.b + r.b) % 2 ^ 32, c := (h.c + r.c) % 2 ^ 32,
    d := (h.d + r.d) % 2 ^ 32, e := (h.e + r.e) % 2 ^ 32, f := (h.f + r.f) % 2 ^ 32,
    g := (h.g + r.g) % 2 ^ 32, hh := (h.hh + r.hh) % 2 ^ 32 }

def sha256 (bytes : List UInt8) : Digest :=
  let h := (blocks (padMessage bytes)).foldl Sha256.block
    { a := 0x6a09e667, b := 0xbb67ae85, c := 0x3c6ef372, d := 0xa54ff53a,
      e := 0x510e527f, f := 0x9b05688c, g := 0x1f83d9ab, hh := 0x5be0cd19 }
  { bytes := wordsToBytes [h.a, h.b, h.c, h.d, h.e, h.f, h.g, h.hh],
    long := by show 20 ≤ 32; decide }

def hmac (hashFn : List UInt8 → Digest) (key message : List UInt8) : Digest :=
  let k := if 64 < key.length then (hashFn key).bytes else key
  let k := k ++ List.replicate (64 - k.length) 0
  let inner := k.map (· ^^^ 0x36)
  let outer := k.map (· ^^^ 0x5c)
  hashFn (outer ++ (hashFn (inner ++ message)).bytes)

def jsMacs : Macs := { sha1 := hmac sha1, sha256 := hmac sha256 }

end QsBitwarden.Panel.TotpModel
