import Mathlib.Data.List.GetD
import QsBitwarden.Lib.JsBits
import QsBitwarden.Lib.Sha
import QsBitwarden.Lib.Utf8
import QsBitwarden.Panel.TwoFactor

/-!
# Panel — the hash functions, as written (`TotpModel.js`, `BitwardenModel.js`)

SHA-1, SHA-256 and HMAC on arrays of numbers, and SHA-256 of a text in hexadecimal. The words of a
hash are signed, and several of them are added up before a sum is cut to 32 bits.

* **`padMessage`**, **`sha1`**, **`sha256`**, **`hmac`**, **`sha256Hex`** — the functions. Arrays
  hold whole numbers; reading past the end gives what the operators make zero of. An array has
  fewer than `2 ^ 32` elements, so that the quotient of its length in bits is exact.
* **`word_schedule`** — a schedule loop against a recurrence, for both hashes.
* **`hashes_standard`** — the functions are the standard ones.
-/

namespace QsBitwarden.Panel.Hashes

open JsBits

/-- A byte array. -/
def numbers (bytes : List UInt8) : List Int := bytes.map fun b => (b.toNat : Int)

/-! ## Words and padding -/

def rotl (x : Int) (n : Nat) : Int := bor (shl x n) (ushr x (32 - n))

def rotr (x : Int) (n : Nat) : Int := bor (ushr x n) (shl x (32 - n))

/-- `while (padded.length % 64 !== 56) padded.push(0)`. -/
def pushZeros : Nat → List Int → List Int
  | 0, padded => padded
  | fuel + 1, padded =>
    if padded.length % 64 ≠ 56 then pushZeros fuel (padded ++ [0]) else padded

/-- `x >>> (i * 8) & 0xff` for each `i` from 3 down. -/
def lengthBytes (x : Int) : List Int := [3, 2, 1, 0].map fun i => band (ushr x (i * 8)) 0xff

/-- A block's length is turns enough for the zeros. -/
def padMessage (bytes : List Int) : List Int :=
  let bitLength : Nat := bytes.length * 8
  let padded := pushZeros 64 (bytes ++ [0x80])
  padded ++ lengthBytes (bitLength / 4294967296 : Nat) ++ lengthBytes bitLength

def wordsToBytes (words : List Int) : List Int :=
  words.flatMap fun x =>
    [band (ushr x 24) 0xff, band (ushr x 16) 0xff, band (ushr x 8) 0xff, band x 0xff]

/-- The word at a position of the padded message. -/
def wordAt (m : List Int) (at' : Nat) : Int :=
  bor (bor (bor (shl (m.getD at' 0) 24) (shl (m.getD (at' + 1) 0) 16)) (shl (m.getD (at' + 2) 0) 8))
    (m.getD (at' + 3) 0)

def blockWords (m : List Int) (off : Nat) : List Int :=
  (List.range 16).map fun i => wordAt m (off + i * 4)

/-- `for (var t = from; t < from + count; t++) w[t] = next(w, t)`, where `w` has its first `from`
words. -/
def extend (next : List Int → Nat → Int) (w : List Int) (start count : Nat) : List Int :=
  (List.range' start count).foldl (fun w t => w ++ [next w t]) w

/-- `for (var off = 0; off < m.length; off += 64)`. -/
def eachBlock {α : Type} (m : List Int) (block : α → Nat → α) (h : α) : α :=
  (List.range ((m.length + 63) / 64)).foldl (fun h i => block h (64 * i)) h

/-! ## SHA-1 -/

namespace Sha1

def next (w : List Int) (t : Nat) : Int :=
  rotl (bxor (bxor (bxor (w.getD (t - 3) 0) (w.getD (t - 8) 0)) (w.getD (t - 14) 0))
    (w.getD (t - 16) 0)) 1

def round (r : Sha.Five Int) (s : Nat) (w : Int) : Sha.Five Int :=
  let (f, k) :=
    if s < 20 then (bor (band r.b r.c) (band (bnot r.b) r.d), 0x5a827999)
    else if s < 40 then (bxor (bxor r.b r.c) r.d, 0x6ed9eba1)
    else if s < 60 then (bor (bor (band r.b r.c) (band r.b r.d)) (band r.c r.d), 0x8f1bbcdc)
    else (bxor (bxor r.b r.c) r.d, 0xca62c1d6)
  let temp := toInt32 (rotl r.a 5 + f + r.e + k + w)
  { a := temp, b := r.a, c := rotl r.b 30, d := r.c, e := r.d }

def block (m : List Int) (h : Sha.Five Int) (off : Nat) : Sha.Five Int :=
  let w := extend next (blockWords m off) 16 64
  let r := (List.range 80).foldl (fun r s => round r s (w.getD s 0)) h
  { a := toInt32 (h.a + r.a), b := toInt32 (h.b + r.b), c := toInt32 (h.c + r.c),
    d := toInt32 (h.d + r.d), e := toInt32 (h.e + r.e) }

def initial : Sha.Five Int :=
  { a := 0x67452301, b := 0xefcdab89, c := 0x98badcfe, d := 0x10325476, e := 0xc3d2e1f0 }

end Sha1

def sha1 (bytes : List Int) : List Int :=
  let m := padMessage bytes
  let h := eachBlock m (Sha1.block m) Sha1.initial
  wordsToBytes [h.a, h.b, h.c, h.d, h.e]

/-! ## SHA-256 -/

namespace Sha256

/-- `SHA256_K`, which both files have. -/
def k (r : Nat) : Int := TotpModel.sha256K.getD r 0

def next (w : List Int) (t : Nat) : Int :=
  let s0 := bxor (bxor (rotr (w.getD (t - 15) 0) 7) (rotr (w.getD (t - 15) 0) 18))
    (ushr (w.getD (t - 15) 0) 3)
  let s1 := bxor (bxor (rotr (w.getD (t - 2) 0) 17) (rotr (w.getD (t - 2) 0) 19))
    (ushr (w.getD (t - 2) 0) 10)
  toInt32 (w.getD (t - 16) 0 + s0 + w.getD (t - 7) 0 + s1)

def round (r : Sha.Eight Int) (k w : Int) : Sha.Eight Int :=
  let s1 := bxor (bxor (rotr r.e 6) (rotr r.e 11)) (rotr r.e 25)
  let ch := bxor (band r.e r.f) (band (bnot r.e) r.g)
  let temp1 := toInt32 (r.h + s1 + ch + k + w)
  let s0 := bxor (bxor (rotr r.a 2) (rotr r.a 13)) (rotr r.a 22)
  let maj := bxor (bxor (band r.a r.b) (band r.a r.c)) (band r.b r.c)
  let temp2 := toInt32 (s0 + maj)
  { a := toInt32 (temp1 + temp2), b := r.a, c := r.b, d := r.c, e := toInt32 (r.d + temp1),
    f := r.e, g := r.f, h := r.g }

/-- A block, with its schedule. -/
def blockOf (w : List Int) (h : Sha.Eight Int) : Sha.Eight Int :=
  let r := (List.range 64).foldl (fun r i => round r (k i) (w.getD i 0)) h
  { a := toInt32 (h.a + r.a), b := toInt32 (h.b + r.b), c := toInt32 (h.c + r.c),
    d := toInt32 (h.d + r.d), e := toInt32 (h.e + r.e), f := toInt32 (h.f + r.f),
    g := toInt32 (h.g + r.g), h := toInt32 (h.h + r.h) }

def block (m : List Int) (h : Sha.Eight Int) (off : Nat) : Sha.Eight Int :=
  blockOf (extend next (blockWords m off) 16 48) h

def initial : Sha.Eight Int :=
  { a := 0x6a09e667, b := 0xbb67ae85, c := 0x3c6ef372, d := 0xa54ff53a, e := 0x510e527f,
    f := 0x9b05688c, g := 0x1f83d9ab, h := 0x5be0cd19 }

end Sha256

def sha256 (bytes : List Int) : List Int :=
  let m := padMessage bytes
  let h := eachBlock m (Sha256.block m) Sha256.initial
  wordsToBytes [h.a, h.b, h.c, h.d, h.e, h.f, h.g, h.h]

/-! ## HMAC -/

def hmac (hashFn : List Int → List Int) (key message : List Int) : List Int :=
  let block := 64
  let k := if block < key.length then hashFn key else key
  let k := k ++ List.replicate (block - k.length) 0
  let inner := (List.range block).map fun i => bxor (k.getD i 0) 0x36
  let outer := (List.range block).map fun i => bxor (k.getD i 0) 0x5c
  hashFn (outer ++ hashFn (inner ++ message))

/-! ## SHA-256 of a text -/

/-- The characters `encodeURIComponent` leaves as they are. -/
def isUnreserved (c : Char) : Bool := c.isAlphanum || "-_.!~*'()".toList.contains c

def upperHex (n : Nat) : Char := (Nat.digitChar n).toUpper

/-- Of a text without lone surrogates; with one, it throws. -/
def encodeURIComponent (text : List Char) : List Char :=
  text.flatMap fun c =>
    if isUnreserved c then [c]
    else (String.utf8EncodeChar c).flatMap fun b =>
      ['%', upperHex (b.toNat / 16), upperHex (b.toNat % 16)]

/-- The number that the next `n` characters are in hexadecimal. -/
def readHex (n : Nat) (text : List Char) : Option Nat :=
  if text.length < n then none
  else (text.take n).foldlM (fun value c => (TotpModel.hexDigit c).map (16 * value + ·)) 0

/-- An escape at the head of a text: its code unit, and how many characters follow the first. -/
def escapeAt : List Char → Option (Nat × Nat)
  | mark :: first :: rest =>
    if mark ≠ '%' then none
    else if first = 'u' then (readHex 4 rest).map (·, 5)
    else (readHex 2 (first :: rest)).map (·, 2)
  | _ => none

/-- `unescape`, on a text of ASCII: its code units. `skip` characters belong to an escape already
read. -/
def unescape : Nat → List Char → List Nat
  | _, [] => []
  | skip + 1, _ :: rest => unescape skip rest
  | 0, c :: rest =>
    match escapeAt (c :: rest) with
    | some (unit, skip) => unit :: unescape skip rest
    | none => c.toNat :: unescape 0 rest

namespace Sha256

/-- The schedule of a block in one loop. -/
def nextHex (m : List Int) (off : Nat) (w : List Int) (t : Nat) : Int :=
  if t < 16 then wordAt m (off + t * 4) else next w t

def blockHex (m : List Int) (h : Sha.Eight Int) (off : Nat) : Sha.Eight Int :=
  blockOf (extend (nextHex m off) [] 0 64) h

end Sha256

def sha256Hex (text : String) : String :=
  let bytes := (unescape 0 (encodeURIComponent text.toList)).map fun (unit : Nat) => (unit : Int)
  let m := padMessage bytes
  let h := eachBlock m (Sha256.blockHex m) Sha256.initial
  String.ofList ([h.a, h.b, h.c, h.d, h.e, h.f, h.g, h.h].flatMap fun x =>
    TwoFactor.hexWord (ushr x 0).toNat)

/-! ## Bytes -/

theorem numbers_append (bytes more : List UInt8) :
    numbers (bytes ++ more) = numbers bytes ++ numbers more := List.map_append

theorem numbers_zeros (n : Nat) : numbers (List.replicate n 0) = List.replicate n 0 :=
  List.map_replicate

theorem length_numbers (bytes : List UInt8) : (numbers bytes).length = bytes.length :=
  List.length_map _

theorem getD_numbers (bytes : List UInt8) (i : Nat) :
    (numbers bytes).getD i 0 = ((bytes.getD i 0).toNat : Int) := by
  rw [List.getD_eq_getElem?_getD, List.getD_eq_getElem?_getD, numbers, List.getElem?_map]
  cases bytes[i]? with
  | none => rfl
  | some b => rfl

theorem word_natCast (n : Nat) : word n = BitVec.ofNat 32 n := BitVec.ofInt_natCast 32 n

/-- A word that is not negative when it is read as signed. -/
theorem toInt_of_lt {x : Word} (h : x.toNat < 2 ^ 31) : x.toInt = x.toNat := by
  rw [BitVec.toInt_eq_toNat_of_lt]
  omega

/-- `x & 0xff`. -/
theorem band_byte (x : Int) : band x 0xff = ((UInt8.ofNat (word x).toNat).toNat : Int) := by
  have hmask : (word x &&& word 0xff).toNat = (word x).toNat % 256 := by
    rw [BitVec.toNat_and]
    exact Nat.and_two_pow_sub_one_eq_mod _ 8
  rw [band, toInt_of_lt (by omega), hmask, UInt8.toNat_ofNat']

theorem wordsToBytes_eq (words : List Int) :
    wordsToBytes words = numbers ((words.map word).flatMap Sha.wordBytes) := by
  induction words with
  | nil => rfl
  | cons x words ih =>
    have hword : [band (ushr x 24) 0xff, band (ushr x 16) 0xff, band (ushr x 8) 0xff, band x 0xff]
        = numbers (Sha.wordBytes (word x)) := by
      rw [band_byte, band_byte, band_byte, band_byte, word_ushr, word_ushr, word_ushr]
      rfl
    rw [List.map_cons, List.flatMap_cons, numbers_append, ← ih, ← hword]
    rfl

theorem lengthBytes_eq (n : Nat) : lengthBytes n = numbers (Sha.numberBytes n) := by
  have hbyte : ∀ s ≤ 24, band (ushr n s) 0xff = ((UInt8.ofNat (n >>> s)).toNat : Int) := by
    intro s hs
    rw [band_byte, word_ushr, word_natCast, Nat.mod_eq_of_lt (by omega : s < 32),
      UInt8.toNat_ofNat', UInt8.toNat_ofNat', BitVec.toNat_ushiftRight, BitVec.toNat_ofNat]
    -- The eight bits lie below the cut.
    have hbits : (n % 2 ^ 32) >>> s % 2 ^ 8 = n >>> s % 2 ^ 8 := by
      apply Nat.eq_of_testBit_eq
      intro i
      rw [Nat.testBit_mod_two_pow, Nat.testBit_mod_two_pow, Nat.testBit_shiftRight,
        Nat.testBit_shiftRight, Nat.testBit_mod_two_pow]
      by_cases hi : i < 8
      · rw [decide_eq_true (by omega : s + i < 32), Bool.true_and]
      · rw [decide_eq_false hi, Bool.false_and, Bool.false_and]
    rw [hbits]
  unfold lengthBytes
  rw [List.map_cons, List.map_cons, List.map_cons, List.map_cons, hbyte _ (by decide),
    hbyte _ (by decide), hbyte _ (by decide), hbyte _ (by decide)]
  rfl

/-! ## Padding -/

theorem pushZeros_eq {fuel : Nat} {padded : List Int}
    (h : (120 - padded.length % 64) % 64 ≤ fuel) :
    pushZeros fuel padded
      = padded ++ List.replicate ((120 - padded.length % 64) % 64) 0 := by
  induction fuel generalizing padded with
  | zero =>
    rw [Nat.le_zero.mp h]
    exact (List.append_nil _).symm
  | succ fuel ih =>
    rw [pushZeros]
    split
    · rename_i hshort
      have hnext : (120 - (padded ++ [0]).length % 64) % 64 + 1
          = (120 - padded.length % 64) % 64 := by
        rw [List.length_append, List.length_singleton]
        omega
      rw [ih (by omega), ← hnext, List.replicate_succ, List.append_assoc]
      rfl
    · rename_i hfull
      have hnone : (120 - padded.length % 64) % 64 = 0 := by omega
      rw [hnone]
      exact (List.append_nil _).symm

theorem padMessage_eq (bytes : List UInt8) :
    padMessage (numbers bytes) = numbers (Sha.padBytes bytes) := by
  have hlength : (numbers bytes ++ [0x80]).length = bytes.length + 1 := by
    rw [List.length_append, length_numbers]
    rfl
  have hhigh : bytes.length * 8 / 4294967296 = (8 * bytes.length) >>> 32 := by
    rw [Nat.shiftRight_eq_div_pow, Nat.mul_comm]
  unfold padMessage Sha.padBytes
  simp only [length_numbers]
  rw [pushZeros_eq (by omega), hlength, lengthBytes_eq, lengthBytes_eq, hhigh,
    Nat.mul_comm bytes.length 8]
  simp only [numbers_append, numbers_zeros]
  rfl

theorem word_wordAt (bytes : List UInt8) {i t : Nat}
    (h : 64 * i + 4 * t + 4 ≤ (Sha.padBytes bytes).length) :
    word (wordAt (numbers (Sha.padBytes bytes)) (64 * i + t * 4))
      = Sha.message (Sha.ofBytes bytes) i t := by
  rw [Sha.message_ofBytes bytes h, Nat.mul_comm t 4]
  simp only [wordAt, word_bor, word_shl, getD_numbers, word_natCast]

/-! ## Rotations -/

theorem word_rotl {x : Int} {n : Nat} (h0 : 0 < n) (h : n < 32) :
    word (rotl x n) = (word x).rotateLeft n := by
  rw [rotl, word_bor, word_shl, word_ushr, BitVec.rotateLeft_def, Nat.mod_eq_of_lt h,
    Nat.mod_eq_of_lt (by omega : 32 - n < 32)]

theorem word_rotr {x : Int} {n : Nat} (h0 : 0 < n) (h : n < 32) :
    word (rotr x n) = (word x).rotateRight n := by
  rw [rotr, word_bor, word_shl, word_ushr, BitVec.rotateRight_def, Nat.mod_eq_of_lt h,
    Nat.mod_eq_of_lt (by omega : 32 - n < 32)]

/-! ## Loops -/

/-- A loop that another one follows step by step. -/
theorem foldl_follows {α β : Type} (f : α → β) {step : α → Nat → α} {step' : β → Nat → β}
    {turns : List Nat} (h : ∀ t ∈ turns, ∀ s, f (step s t) = step' (f s) t) (s : α) :
    f (turns.foldl step s) = turns.foldl step' (f s) := by
  induction turns generalizing s with
  | nil => rfl
  | cons t turns ih =>
    obtain ⟨ht, hturns⟩ := List.forall_mem_cons.mp h
    rw [List.foldl_cons, List.foldl_cons, ih hturns, ht]

/-- The first words of a schedule are those of a recurrence. -/
structure Scheduled (w : List Int) (schedule : Nat → Word) (count : Nat) : Prop where
  length_eq : w.length = count
  word_eq : ∀ i < count, word (w.getD i 0) = schedule i

/-- A schedule loop computes the recurrence if each turn does, given the words before it. -/
theorem word_schedule {next : List Int → Nat → Int} {schedule : Nat → Word} {start : Nat}
    (hnext : ∀ w t, start ≤ t → Scheduled w schedule t → word (next w t) = schedule t)
    {w : List Int} (hw : Scheduled w schedule start) (count : Nat) :
    Scheduled (extend next w start count) schedule (start + count) := by
  induction count with
  | zero => exact hw
  | succ count ih =>
    have hsnoc : extend next w start (count + 1) = extend next w start count
        ++ [next (extend next w start count) (start + count)] := by
      rw [extend, List.range'_concat, List.foldl_append, Nat.one_mul]
      rfl
    rw [hsnoc]
    refine ⟨?_, fun i hi => ?_⟩
    · rw [List.length_append, ih.length_eq]
      rfl
    · by_cases hlast : i < start + count
      · rw [List.getD_append _ _ _ _ (by rw [ih.length_eq]; exact hlast)]
        exact ih.word_eq i hlast
      · have hi : i = start + count := by omega
        rw [List.getD_append_right _ _ _ _ (by rw [ih.length_eq]; omega), ih.length_eq, hi,
          Nat.sub_self]
        exact hnext _ _ (Nat.le_add_right _ _) ih

/-- The words of a block. -/
theorem Scheduled.blockWords (bytes : List UInt8) {i : Nat}
    (h : 64 * i + 64 ≤ (Sha.padBytes bytes).length) {schedule : Nat → Word}
    (hs : ∀ t < 16, schedule t = Sha.message (Sha.ofBytes bytes) i t) :
    Scheduled (blockWords (numbers (Sha.padBytes bytes)) (64 * i)) schedule 16 := by
  refine ⟨?_, fun t ht => ?_⟩
  · rw [Hashes.blockWords, List.length_map, List.length_range]
  · have hget : (Hashes.blockWords (numbers (Sha.padBytes bytes)) (64 * i)).getD t 0
        = wordAt (numbers (Sha.padBytes bytes)) (64 * i + t * 4) := by
      rw [List.getD_eq_getElem?_getD, Hashes.blockWords, List.getElem?_map, List.getElem?_range ht]
      rfl
    rw [hget, word_wordAt bytes (by omega), hs t ht]

/-- A hash is a hash of the padded blocks, one after another. -/
theorem eachBlock_follows {α β : Type} (f : α → β) {block : α → Nat → α}
    {block' : β → (Nat → Word) → β} (bytes : List UInt8)
    (h : ∀ i, 64 * i + 64 ≤ (Sha.padBytes bytes).length → ∀ s,
      f (block s (64 * i)) = block' (f s) (Sha.message (Sha.ofBytes bytes) i)) (s : α) :
    f (eachBlock (numbers (Sha.padBytes bytes)) block s)
      = (List.range (Sha.blockCount (Sha.ofBytes bytes))).foldl
        (fun s i => block' s (Sha.message (Sha.ofBytes bytes) i)) (f s) := by
  obtain ⟨n, hn⟩ := Sha.length_padBytes bytes
  have hcount : (64 * n + 63) / 64 = n := by omega
  have hcount' : 64 * n / 64 = n := by omega
  rw [eachBlock, length_numbers, Sha.blockCount_ofBytes, hn, hcount, hcount']
  refine foldl_follows f (fun i hi s => h i ?_ s) s
  have hlt := List.mem_range.mp hi
  omega

/-! ## SHA-1 -/

namespace Sha1

theorem word_next {m : Nat → Word} {w : List Int} {t : Nat} (ht : 16 ≤ t)
    (hw : Scheduled w (Sha.Sha1.schedule m) t) : word (next w t) = Sha.Sha1.schedule m t := by
  rw [next, word_rotl (by decide) (by decide), word_bxor, word_bxor, word_bxor,
    hw.word_eq _ (by omega), hw.word_eq _ (by omega), hw.word_eq _ (by omega),
    hw.word_eq _ (by omega), Sha.Sha1.schedule.eq_def m t, if_neg (by omega)]

/-- Choosing and joining bits that exclude each other is adding them. -/
theorem ch_or (x y z : Word) : (x &&& y) ||| (~~~x &&& z) = Sha.ch x y z := by
  apply BitVec.eq_of_getLsbD_eq
  intro i hi
  simp only [Sha.ch, BitVec.getLsbD_or, BitVec.getLsbD_xor, BitVec.getLsbD_and, BitVec.getLsbD_not,
    hi, decide_true, Bool.true_and]
  cases x.getLsbD i <;> simp

theorem maj_or (x y z : Word) : (x &&& y) ||| (x &&& z) ||| (y &&& z) = Sha.maj x y z := by
  apply BitVec.eq_of_getLsbD_eq
  intro i hi
  simp only [Sha.maj, BitVec.getLsbD_or, BitVec.getLsbD_xor, BitVec.getLsbD_and]
  cases x.getLsbD i <;> cases y.getLsbD i <;> simp

theorem map_round (r : Sha.Five Int) (s : Nat) (w : Int) :
    (round r s w).map word = Sha.Sha1.round (r.map word) s (word w) := by
  unfold round Sha.Sha1.round Sha.Sha1.f Sha.Sha1.k Sha.Five.map
  -- One case for each of the four functions and constants.
  split_ifs <;> simp only [word_toInt32, word_add, word_rotl, word_bor, word_band, word_bnot,
    word_bxor, ch_or, maj_or, Nat.reduceLT] <;> rfl

theorem map_block (bytes : List UInt8) {i : Nat}
    (h : 64 * i + 64 ≤ (Sha.padBytes bytes).length) (s : Sha.Five Int) :
    (block (numbers (Sha.padBytes bytes)) s (64 * i)).map word
      = Sha.Sha1.block (s.map word) (Sha.message (Sha.ofBytes bytes) i) := by
  let w := extend next (blockWords (numbers (Sha.padBytes bytes)) (64 * i)) 16 64
  have hw : Scheduled w (Sha.Sha1.schedule (Sha.message (Sha.ofBytes bytes) i)) 80 :=
    word_schedule (fun w t => word_next)
      (.blockWords bytes h fun t ht => by rw [Sha.Sha1.schedule, if_pos ht]) 64
  have hrounds : ((List.range 80).foldl (fun r t => round r t (w.getD t 0)) s).map word
      = (List.range 80).foldl (fun r t => Sha.Sha1.round r t
        (Sha.Sha1.schedule (Sha.message (Sha.ofBytes bytes) i) t)) (s.map word) :=
    foldl_follows _ (fun t ht r => by rw [map_round, hw.word_eq t (List.mem_range.mp ht)]) s
  rw [Sha.Sha1.block, ← hrounds]
  simp only [block, Sha.Five.map, word_toInt32, word_add]
  rfl

end Sha1

theorem sha1_eq (bytes : List UInt8) : sha1 (numbers bytes) = numbers (Sha.sha1 bytes) := by
  have hhash : (eachBlock (numbers (Sha.padBytes bytes)) (Sha1.block (numbers (Sha.padBytes bytes)))
      Sha1.initial).map word = Sha.Sha1.hash (Sha.ofBytes bytes) :=
    eachBlock_follows _ bytes (fun i hi s => Sha1.map_block bytes hi s) _
  rw [sha1, padMessage_eq, wordsToBytes_eq, Sha.sha1, ← hhash]
  rfl

/-! ## SHA-256 -/

namespace Sha256

/-- The table is the one that the standard derives from the cube roots of the primes. -/
theorem word_k : ∀ i < 64, word (k i) = Sha.Sha256.k i := by
  decide +kernel

theorem map_initial : initial.map word = Sha.Sha256.initial := by
  have hroots : ([initial.a, initial.b, initial.c, initial.d, initial.e, initial.f, initial.g,
      initial.h].map word) = (List.range 8).map fun i =>
        Sha.Sha256.fraction 2 (Sha.Sha256.primes.getD i 0) := by
    decide +kernel
  obtain ⟨ha, hb, hc, hd, he, hf, hg, hh, -⟩ := by
    simpa only [List.map_cons, List.map_nil, List.range_succ, List.range_zero, List.nil_append,
      List.cons_append, List.cons.injEq] using hroots
  simp only [Sha.Eight.map, Sha.Sha256.initial, ha, hb, hc, hd, he, hf, hg, hh]

theorem word_next {m : Nat → Word} {w : List Int} {t : Nat} (ht : 16 ≤ t)
    (hw : Scheduled w (Sha.Sha256.schedule m) t) :
    word (next w t) = Sha.Sha256.schedule m t := by
  have hword : word (next w t) = Sha.Sha256.schedule m (t - 16)
      + Sha.Sha256.smallSigma0 (Sha.Sha256.schedule m (t - 15)) + Sha.Sha256.schedule m (t - 7)
      + Sha.Sha256.smallSigma1 (Sha.Sha256.schedule m (t - 2)) := by
    simp only [next, word_toInt32, word_add, word_bxor, word_rotr, word_ushr, Nat.reduceLT,
      hw.word_eq (t - 16) (by omega), hw.word_eq (t - 15) (by omega),
      hw.word_eq (t - 7) (by omega), hw.word_eq (t - 2) (by omega)]
    rfl
  -- The standard adds the four in the other order.
  rw [hword, Sha.Sha256.schedule.eq_def m t, if_neg (by omega)]
  ac_rfl

theorem map_round (r : Sha.Eight Int) (k w : Int) :
    (round r k w).map word = Sha.Sha256.round (r.map word) (word k) (word w) := by
  simp only [round, Sha.Eight.map, word_toInt32, word_add, word_bxor, word_band, word_bnot,
    word_rotr, Nat.reduceLT]
  rfl

theorem map_blockOf {w : List Int} {m : Nat → Word} (hw : Scheduled w (Sha.Sha256.schedule m) 64)
    (s : Sha.Eight Int) : (blockOf w s).map word = Sha.Sha256.block (s.map word) m := by
  have hrounds : ((List.range 64).foldl (fun r i => round r (k i) (w.getD i 0)) s).map word
      = (List.range 64).foldl (fun r i => Sha.Sha256.round r (Sha.Sha256.k i)
        (Sha.Sha256.schedule m i)) (s.map word) := by
    refine foldl_follows _ (fun i hi r => ?_) s
    have hlt := List.mem_range.mp hi
    rw [map_round, hw.word_eq i hlt, word_k i hlt]
  rw [Sha.Sha256.block, ← hrounds]
  simp only [blockOf, Sha.Eight.map, word_toInt32, word_add]
  rfl

theorem map_block (bytes : List UInt8) {i : Nat}
    (h : 64 * i + 64 ≤ (Sha.padBytes bytes).length) (s : Sha.Eight Int) :
    (block (numbers (Sha.padBytes bytes)) s (64 * i)).map word
      = Sha.Sha256.block (s.map word) (Sha.message (Sha.ofBytes bytes) i) :=
  map_blockOf (word_schedule (fun w t => word_next)
    (.blockWords bytes h fun t ht => by rw [Sha.Sha256.schedule, if_pos ht]) 48) s

/-- The schedule in one loop is the same. -/
theorem map_blockHex (bytes : List UInt8) {i : Nat}
    (h : 64 * i + 64 ≤ (Sha.padBytes bytes).length) (s : Sha.Eight Int) :
    (blockHex (numbers (Sha.padBytes bytes)) s (64 * i)).map word
      = Sha.Sha256.block (s.map word) (Sha.message (Sha.ofBytes bytes) i) := by
  have hempty : Scheduled [] (Sha.Sha256.schedule (Sha.message (Sha.ofBytes bytes) i)) 0 :=
    ⟨rfl, fun j hj => absurd hj (Nat.not_lt_zero j)⟩
  refine map_blockOf (word_schedule (fun w t _ hw => ?_) hempty 64) s
  unfold nextHex
  split
  · rename_i ht
    rw [word_wordAt bytes (by omega), Sha.Sha256.schedule, if_pos ht]
  · exact word_next (by omega) hw

end Sha256

theorem sha256_eq (bytes : List UInt8) : sha256 (numbers bytes) = numbers (Sha.sha256 bytes) := by
  have hhash : (eachBlock (numbers (Sha.padBytes bytes))
      (Sha256.block (numbers (Sha.padBytes bytes))) Sha256.initial).map word
      = Sha.Sha256.hash (Sha.ofBytes bytes) := by
    rw [Sha.Sha256.hash, ← Sha256.map_initial]
    exact eachBlock_follows _ bytes (fun i hi s => Sha256.map_block bytes hi s) _
  rw [sha256, padMessage_eq, wordsToBytes_eq, Sha.sha256, ← hhash]
  rfl

/-! ## HMAC -/

theorem bxor_byte (b mask : UInt8) : bxor b.toNat mask.toNat = ((b ^^^ mask).toNat : Int) := by
  have hb : b.toNat < 2 ^ 32 := Nat.lt_trans b.toNat_lt (by decide)
  have hmask : mask.toNat < 2 ^ 32 := Nat.lt_trans mask.toNat_lt (by decide)
  have hxor : (word b.toNat ^^^ word mask.toNat).toNat = (b ^^^ mask).toNat := by
    rw [word_natCast, word_natCast, BitVec.toNat_xor, BitVec.toNat_ofNat, BitVec.toNat_ofNat,
      Nat.mod_eq_of_lt hb, Nat.mod_eq_of_lt hmask, UInt8.toNat_xor]
  have hsmall : (b ^^^ mask).toNat < 2 ^ 31 := Nat.lt_trans (UInt8.toNat_lt _) (by decide)
  rw [bxor, toInt_of_lt (by rw [hxor]; exact hsmall), hxor]

/-- The loop over the key's bytes. -/
theorem masked_eq {key : List UInt8} (h : key.length = 64) (mask : UInt8) :
    ((List.range 64).map fun i => bxor ((numbers key).getD i 0) mask.toNat)
      = numbers (key.map (· ^^^ mask)) := by
  apply List.ext_getElem
  · rw [List.length_map, List.length_range, length_numbers, List.length_map, h]
  · intro i hi _
    rw [List.length_map, List.length_range] at hi
    have hkey : i < key.length := by omega
    rw [List.getElem_map, List.getElem_range, getD_numbers, List.getD_eq_getElem?_getD,
      List.getElem?_eq_getElem hkey, Option.getD_some, bxor_byte]
    simp only [numbers, List.getElem_map]

theorem hmac_eq {hashFn : List Int → List Int} {hash : List UInt8 → List UInt8}
    (hhash : ∀ bytes, hashFn (numbers bytes) = numbers (hash bytes))
    (hshort : ∀ bytes, (hash bytes).length ≤ 64) (key message : List UInt8) :
    hmac hashFn (numbers key) (numbers message) = numbers (Sha.hmac 64 hash key message) := by
  -- The key as it is used, before and after it is filled up.
  let used := if 64 < key.length then hash key else key
  have hused : (if 64 < (numbers key).length then hashFn (numbers key) else numbers key)
      = numbers used := by
    rw [length_numbers, hhash]
    exact (apply_ite numbers _ _ _).symm
  have hlength : used.length ≤ 64 := by
    show (if 64 < key.length then hash key else key).length ≤ 64
    split
    · exact hshort key
    · omega
  let filled := used ++ List.replicate (64 - used.length) 0
  have hfilled : numbers used ++ List.replicate (64 - (numbers used).length) 0
      = numbers filled := by
    rw [length_numbers, numbers_append, numbers_zeros]
  have hfull : filled.length = 64 := by
    rw [List.length_append, List.length_replicate]
    omega
  unfold hmac
  simp only [hused, hfilled]
  have hinner := masked_eq hfull 0x36
  have houter := masked_eq hfull 0x5c
  show hashFn (List.map (fun i => bxor ((numbers filled).getD i 0) (0x5c : UInt8).toNat) _
    ++ hashFn (List.map (fun i => bxor ((numbers filled).getD i 0) (0x36 : UInt8).toNat) _
      ++ numbers message)) = _
  rw [hinner, houter, ← numbers_append, hhash, ← numbers_append, hhash]
  rfl

/-! ## Texts -/

theorem upperHex_facts : ∀ n < 16,
    upperHex n ≠ 'u' ∧ TotpModel.hexDigit (upperHex n) = some n := by
  decide

theorem unescape_byte (b : UInt8) (rest : List Char) :
    unescape 0 ('%' :: upperHex (b.toNat / 16) :: upperHex (b.toNat % 16) :: rest)
      = b.toNat :: unescape 0 rest := by
  have hb := b.toNat_lt
  obtain ⟨hu, hhigh⟩ := upperHex_facts (b.toNat / 16) (by omega)
  obtain ⟨-, hlow⟩ := upperHex_facts (b.toNat % 16) (by omega)
  have hread : readHex 2 (upperHex (b.toNat / 16) :: upperHex (b.toNat % 16) :: rest)
      = some b.toNat := by
    have hlength : ¬(upperHex (b.toNat / 16) :: upperHex (b.toNat % 16) :: rest).length < 2 :=
      Nat.not_lt.mpr (Nat.le_add_left 2 _)
    rw [readHex, if_neg hlength]
    show ((TotpModel.hexDigit _).map _).bind _ = _
    rw [hhigh]
    show ((TotpModel.hexDigit _).map _).bind _ = _
    rw [hlow]
    show some (16 * (16 * 0 + b.toNat / 16) + b.toNat % 16) = _
    rw [Option.some.injEq]
    omega
  have hescape : escapeAt ('%' :: upperHex (b.toNat / 16) :: upperHex (b.toNat % 16) :: rest)
      = some (b.toNat, 2) := by
    rw [escapeAt, if_neg (not_not_intro rfl), if_neg hu, hread]
    rfl
  rw [unescape, hescape]
  rfl

theorem unescape_bytes (bytes : List UInt8) (rest : List Char) :
    unescape 0 ((bytes.flatMap fun b =>
      ['%', upperHex (b.toNat / 16), upperHex (b.toNat % 16)]) ++ rest)
      = bytes.map UInt8.toNat ++ unescape 0 rest := by
  induction bytes with
  | nil => rfl
  | cons b bytes ih =>
    rw [List.flatMap_cons, List.append_assoc, List.cons_append, List.cons_append, List.cons_append,
      List.nil_append, unescape_byte, ih]
    rfl

theorem isUnreserved_facts {c : Char} (h : isUnreserved c = true) : c.toNat < 0x80 ∧ c ≠ '%' := by
  constructor
  · rcases Bool.or_eq_true_iff.mp h with h | h
    · have hcases := Utf8.isAlphanum_cases h
      omega
    · have hall : ("-_.!~*'()".toList.all fun d => d.toNat < 0x80) = true := by decide
      exact of_decide_eq_true (List.all_eq_true.mp hall c (List.contains_iff_mem.mp h))
  · rintro rfl
    exact absurd h (by decide)

/-- Encoding a text for a URL and taking the escapes apart gives its bytes. -/
theorem unescape_encodeURIComponent (text : List Char) :
    unescape 0 (encodeURIComponent text) = (Utf8.encode text).map UInt8.toNat := by
  induction text with
  | nil => rfl
  | cons c text ih =>
    rw [encodeURIComponent, List.flatMap_cons, ← encodeURIComponent, Utf8.encode_cons,
      List.map_append, ← ih]
    split
    · rename_i hplain
      obtain ⟨hascii, hpercent⟩ := isUnreserved_facts hplain
      have hnone : escapeAt (c :: encodeURIComponent text) = none := by
        cases encodeURIComponent text with
        | nil => rfl
        | cons d rest => rw [escapeAt, if_pos hpercent]
      have hbyte : (UInt8.ofNat c.toNat).toNat = c.toNat := by
        rw [UInt8.toNat_ofNat']
        omega
      rw [List.singleton_append, unescape, hnone, Utf8.encodeChar_ascii hascii, List.map_singleton,
        hbyte]
      rfl
    · exact unescape_bytes _ _

/-! ## Hexadecimal -/

/-- The last `count` digits of a number. -/
def lastDigits : Nat → Nat → List Char
  | 0, _ => []
  | count + 1, n => lastDigits count (n / 16) ++ [Nat.digitChar (n % 16)]

/-- Filling up with zeros and cutting from the right gives the last digits. -/
theorem drop_toDigits (count n : Nat) :
    (List.replicate count '0' ++ Nat.toDigits 16 n).drop (Nat.toDigits 16 n).length
      = lastDigits count n := by
  induction count generalizing n with
  | zero => exact List.drop_length
  | succ count ih =>
    by_cases hsmall : n < 16
    · have hzeros : lastDigits count 0 = List.replicate count '0' := by
        clear ih
        induction count with
        | zero => rfl
        | succ count ih =>
          rw [lastDigits, Nat.zero_div, ih, List.replicate_succ']
          rfl
      rw [Nat.toDigits_of_lt_base hsmall, List.replicate_succ, lastDigits, Nat.div_eq_of_lt hsmall,
        hzeros, Nat.mod_eq_of_lt hsmall]
      rfl
    · rw [Nat.toDigits_of_base_le (by decide) (by omega), List.length_append,
        List.length_singleton, List.replicate_succ, List.cons_append, List.drop_succ_cons,
        ← List.append_assoc, List.drop_append_of_le_length, ih, lastDigits]
      rw [List.length_append]
      omega

def hexBytes (bytes : List UInt8) : List Char :=
  bytes.flatMap fun b => [Nat.digitChar (b.toNat / 16), Nat.digitChar (b.toNat % 16)]

theorem hexWord_eq (x : Word) : TwoFactor.hexWord x.toNat = hexBytes (Sha.wordBytes x) := by
  have hdrop : TwoFactor.hexWord x.toNat = lastDigits 8 x.toNat := by
    unfold TwoFactor.hexWord
    simp only [List.length_append, List.length_replicate, Nat.add_sub_cancel_left]
    exact drop_toDigits 8 x.toNat
  have hbyte : ∀ s, (UInt8.ofNat (x >>> s).toNat).toNat = x.toNat / 2 ^ s % 256 := by
    intro s
    rw [UInt8.toNat_ofNat', BitVec.toNat_ushiftRight, Nat.shiftRight_eq_div_pow]
  have hbytes : hexBytes (Sha.wordBytes x) = [24, 16, 8, 0].flatMap fun s =>
      [Nat.digitChar (x.toNat / 2 ^ s % 256 / 16), Nat.digitChar (x.toNat / 2 ^ s % 256 % 16)] := by
    simp only [hexBytes, Sha.wordBytes, List.map_cons, List.map_nil, List.flatMap_cons,
      List.flatMap_nil, hbyte]
  have hx := x.isLt
  -- Eight digits on either side, equal one by one.
  rw [hdrop, hbytes]
  simp only [lastDigits, List.flatMap_cons, List.flatMap_nil, List.nil_append, List.cons_append,
    List.append_nil, List.cons.injEq, and_true]
  refine ⟨?_, ?_, ?_, ?_, ?_, ?_, ?_, ?_⟩ <;> exact congrArg Nat.digitChar (by omega)

theorem sha256Hex_eq (text : String) :
    sha256Hex text = String.ofList (hexBytes (Sha.sha256 (Utf8.encode text.toList))) := by
  have hhash : (eachBlock (numbers (Sha.padBytes (Utf8.encode text.toList)))
      (Sha256.blockHex (numbers (Sha.padBytes (Utf8.encode text.toList)))) Sha256.initial).map word
      = Sha.Sha256.hash (Sha.ofBytes (Utf8.encode text.toList)) := by
    rw [Sha.Sha256.hash, ← Sha256.map_initial]
    exact eachBlock_follows _ _ (fun i hi s => Sha256.map_blockHex _ hi s) _
  have hbytes : (unescape 0 (encodeURIComponent text.toList)).map (fun (unit : Nat) => (unit : Int))
      = numbers (Utf8.encode text.toList) := by
    rw [unescape_encodeURIComponent, List.map_map]
    rfl
  have hword : ∀ x : Int, TwoFactor.hexWord (ushr x 0).toNat
      = hexBytes (Sha.wordBytes (word x)) := by
    intro x
    rw [← hexWord_eq]
    rfl
  unfold sha256Hex
  simp only [hbytes, padMessage_eq, hword]
  rw [Sha.sha256, ← hhash]
  simp only [hexBytes, List.flatMap_cons, List.flatMap_nil, List.flatMap_append, Sha.Eight.map]

/-- The hash functions are the standard ones, on every array and every text. -/
theorem hashes_standard :
    (∀ bytes, sha1 (numbers bytes) = numbers (Sha.sha1 bytes) ∧
      sha256 (numbers bytes) = numbers (Sha.sha256 bytes)) ∧
    (∀ key message,
      hmac sha1 (numbers key) (numbers message) = numbers (Sha.hmac 64 Sha.sha1 key message) ∧
      hmac sha256 (numbers key) (numbers message)
        = numbers (Sha.hmac 64 Sha.sha256 key message)) ∧
    ∀ text : String,
      sha256Hex text = String.ofList (hexBytes (Sha.sha256 (Utf8.encode text.toList))) := by
  refine ⟨fun bytes => ⟨sha1_eq bytes, sha256_eq bytes⟩, fun key message => ⟨?_, ?_⟩,
    sha256Hex_eq⟩
  · exact hmac_eq sha1_eq (fun bytes => by show 20 ≤ 64; decide) key message
  · exact hmac_eq sha256_eq (fun bytes => by show 32 ≤ 64; decide) key message

end QsBitwarden.Panel.Hashes
