import Mathlib.Data.BitVec

/-!
# Lib — SHA-1, SHA-256 and HMAC

The functions as their standards define them: on bit strings, with words of 32 bits.

* **`pad`**, **`message`**, **`blockCount`** — the padded message and its words.
* **`Sha1`**, **`Sha256`** — the schedule by its recurrence, a round, the hash of a block and of a
  message. The constants of SHA-256 are computed from the roots of the first primes.
* **`sha1`**, **`sha256`**, **`hmac`** — on bytes.
* **`pad_ofBytes`**, **`message_ofBytes`** — the padding and the words of a message of whole bytes.
-/

namespace QsBitwarden.Sha

abbrev Word := BitVec 32

abbrev Bits := List Bool

/-! ## Messages -/

/-- `n` with its high bit first. -/
def bitsOf (width n : Nat) : Bits := (List.range width).reverse.map n.testBit

def value (bits : Bits) : Nat := bits.foldl (fun n b => 2 * n + b.toNat) 0

def wordOf (bits : Bits) : Word := BitVec.ofNat 32 (value bits)

/-- The least number that fills a message of `length` bits and its end mark to 64 bits before the
end of a block. -/
def zeros (length : Nat) : Nat := (960 - (length + 1) % 512) % 512

def pad (bits : Bits) : Bits :=
  bits ++ [true] ++ List.replicate (zeros bits.length) false ++ bitsOf 64 bits.length

def blockCount (bits : Bits) : Nat := (pad bits).length / 512

/-- Word `t` of block `i`. -/
def message (bits : Bits) (i t : Nat) : Word :=
  wordOf (((pad bits).drop (512 * i + 32 * t)).take 32)

/-- A word's bytes, the high one first. -/
def wordBytes (x : Word) : List UInt8 := [24, 16, 8, 0].map fun s => UInt8.ofNat (x >>> s).toNat

def ofBytes (bytes : List UInt8) : Bits := bytes.flatMap fun b => bitsOf 8 b.toNat

def ch (x y z : Word) : Word := (x &&& y) ^^^ (~~~x &&& z)

def parity (x y z : Word) : Word := x ^^^ y ^^^ z

def maj (x y z : Word) : Word := (x &&& y) ^^^ (x &&& z) ^^^ (y &&& z)

/-! ## SHA-1 -/

/-- Five registers. -/
structure Five (α : Type) where
  a : α
  b : α
  c : α
  d : α
  e : α

def Five.map {α β : Type} (f : α → β) (s : Five α) : Five β :=
  ⟨f s.a, f s.b, f s.c, f s.d, f s.e⟩

namespace Sha1

def f (t : Nat) (x y z : Word) : Word :=
  if t < 20 then ch x y z else if t < 40 then parity x y z else if t < 60 then maj x y z
  else parity x y z

def k (t : Nat) : Word :=
  if t < 20 then 0x5a827999 else if t < 40 then 0x6ed9eba1 else if t < 60 then 0x8f1bbcdc
  else 0xca62c1d6

/-- The message schedule. -/
def schedule (m : Nat → Word) (t : Nat) : Word :=
  if t < 16 then m t
  else (schedule m (t - 3) ^^^ schedule m (t - 8) ^^^ schedule m (t - 14)
    ^^^ schedule m (t - 16)).rotateLeft 1

def round (s : Five Word) (t : Nat) (w : Word) : Five Word :=
  ⟨s.a.rotateLeft 5 + f t s.b s.c s.d + s.e + k t + w, s.a, s.b.rotateLeft 30, s.c, s.d⟩

def add (s r : Five Word) : Five Word := ⟨s.a + r.a, s.b + r.b, s.c + r.c, s.d + r.d, s.e + r.e⟩

def block (s : Five Word) (m : Nat → Word) : Five Word :=
  add s ((List.range 80).foldl (fun r t => round r t (schedule m t)) s)

def initial : Five Word := ⟨0x67452301, 0xefcdab89, 0x98badcfe, 0x10325476, 0xc3d2e1f0⟩

def hash (bits : Bits) : Five Word :=
  (List.range (blockCount bits)).foldl (fun s i => block s (message bits i)) initial

end Sha1

def sha1 (bytes : List UInt8) : List UInt8 :=
  let h := Sha1.hash (ofBytes bytes)
  [h.a, h.b, h.c, h.d, h.e].flatMap wordBytes

/-! ## SHA-256 -/

/-- Eight registers. -/
structure Eight (α : Type) where
  a : α
  b : α
  c : α
  d : α
  e : α
  f : α
  g : α
  h : α

def Eight.map {α β : Type} (f : α → β) (s : Eight α) : Eight β :=
  ⟨f s.a, f s.b, f s.c, f s.d, f s.e, f s.f, f s.g, f s.h⟩

namespace Sha256

def isPrime (n : Nat) : Bool := 2 ≤ n && (List.range n).all fun d => d < 2 || n % d ≠ 0

/-- The first 64 primes. -/
def primes : List Nat := (List.range 312).filter isPrime

/-- The `n`-th root of `x`, rounded down, where it is below `2 ^ 35`. -/
def root (n x : Nat) : Nat :=
  (List.range 35).reverse.foldl (fun r i => if (r + 2 ^ i) ^ n ≤ x then r + 2 ^ i else r) 0

/-- The first 32 bits of the fractional part of the `n`-th root of `p`. -/
def fraction (n p : Nat) : Word := BitVec.ofNat 32 (root n (p * 2 ^ (32 * n)))

def k (t : Nat) : Word := fraction 3 (primes.getD t 0)

def initial : Eight Word :=
  let h := fun i => fraction 2 (primes.getD i 0)
  ⟨h 0, h 1, h 2, h 3, h 4, h 5, h 6, h 7⟩

def bigSigma0 (x : Word) : Word := x.rotateRight 2 ^^^ x.rotateRight 13 ^^^ x.rotateRight 22

def bigSigma1 (x : Word) : Word := x.rotateRight 6 ^^^ x.rotateRight 11 ^^^ x.rotateRight 25

def smallSigma0 (x : Word) : Word := x.rotateRight 7 ^^^ x.rotateRight 18 ^^^ x >>> 3

def smallSigma1 (x : Word) : Word := x.rotateRight 17 ^^^ x.rotateRight 19 ^^^ x >>> 10

def schedule (m : Nat → Word) (t : Nat) : Word :=
  if t < 16 then m t
  else smallSigma1 (schedule m (t - 2)) + schedule m (t - 7) + smallSigma0 (schedule m (t - 15))
    + schedule m (t - 16)

def round (s : Eight Word) (k w : Word) : Eight Word :=
  let t1 := s.h + bigSigma1 s.e + ch s.e s.f s.g + k + w
  let t2 := bigSigma0 s.a + maj s.a s.b s.c
  ⟨t1 + t2, s.a, s.b, s.c, s.d + t1, s.e, s.f, s.g⟩

def add (s r : Eight Word) : Eight Word :=
  ⟨s.a + r.a, s.b + r.b, s.c + r.c, s.d + r.d, s.e + r.e, s.f + r.f, s.g + r.g, s.h + r.h⟩

def block (s : Eight Word) (m : Nat → Word) : Eight Word :=
  add s ((List.range 64).foldl (fun r t => round r (k t) (schedule m t)) s)

def hash (bits : Bits) : Eight Word :=
  (List.range (blockCount bits)).foldl (fun s i => block s (message bits i)) initial

end Sha256

def sha256 (bytes : List UInt8) : List UInt8 :=
  let h := Sha256.hash (ofBytes bytes)
  [h.a, h.b, h.c, h.d, h.e, h.f, h.g, h.h].flatMap wordBytes

/-! ## HMAC -/

/-- The keyed hash over a hash function with blocks of `size` bytes. -/
def hmac (size : Nat) (hash : List UInt8 → List UInt8) (key text : List UInt8) : List UInt8 :=
  let key := if size < key.length then hash key else key
  let key := key ++ List.replicate (size - key.length) 0
  hash (key.map (· ^^^ 0x5c) ++ hash (key.map (· ^^^ 0x36) ++ text))

/-! ## Messages of whole bytes -/

@[simp] theorem length_bitsOf (width n : Nat) : (bitsOf width n).length = width := by
  rw [bitsOf, List.length_map, List.length_reverse, List.length_range]

theorem bitsOf_succ (width n : Nat) : bitsOf (width + 1) n = n.testBit width :: bitsOf width n := by
  rw [bitsOf, List.range_succ, List.reverse_concat, List.map_cons]
  rfl

/-- The high bits are those of the quotient. -/
theorem bitsOf_add (high low n : Nat) :
    bitsOf (high + low) n = bitsOf high (n >>> low) ++ bitsOf low n := by
  induction high with
  | zero =>
    rw [Nat.zero_add]
    rfl
  | succ high ih =>
    rw [Nat.succ_add, bitsOf_succ, ih, bitsOf_succ, Nat.testBit_shiftRight, Nat.add_comm high low]
    rfl

/-- Only the low bits are read. -/
theorem bitsOf_mod (width n : Nat) : bitsOf width (n % 2 ^ width) = bitsOf width n := by
  refine List.map_congr_left fun i hi => ?_
  rw [List.mem_reverse, List.mem_range] at hi
  rw [Nat.testBit_mod_two_pow, decide_eq_true hi, Bool.true_and]

theorem ofBytes_cons (b : UInt8) (bytes : List UInt8) :
    ofBytes (b :: bytes) = bitsOf 8 b.toNat ++ ofBytes bytes := rfl

theorem ofBytes_append (bytes more : List UInt8) :
    ofBytes (bytes ++ more) = ofBytes bytes ++ ofBytes more := List.flatMap_append

@[simp] theorem length_ofBytes (bytes : List UInt8) :
    (ofBytes bytes).length = 8 * bytes.length := by
  induction bytes with
  | nil => rfl
  | cons b bytes ih =>
    rw [ofBytes_cons, List.length_append, length_bitsOf, ih, List.length_cons]
    omega

theorem drop_ofBytes (n : Nat) (bytes : List UInt8) :
    (ofBytes bytes).drop (8 * n) = ofBytes (bytes.drop n) := by
  induction n generalizing bytes with
  | zero => rfl
  | succ n ih =>
    cases bytes with
    | nil => rw [List.drop_nil, ofBytes, List.flatMap_nil, List.drop_nil]
    | cons b bytes =>
      have hskip : 8 * (n + 1) = (bitsOf 8 b.toNat).length + 8 * n := by
        rw [length_bitsOf]
        omega
      rw [ofBytes_cons, hskip, List.drop_length_add_append, ih, List.drop_succ_cons]

theorem take_ofBytes (n : Nat) (bytes : List UInt8) :
    (ofBytes bytes).take (8 * n) = ofBytes (bytes.take n) := by
  induction n generalizing bytes with
  | zero => rfl
  | succ n ih =>
    cases bytes with
    | nil => rw [List.take_nil, ofBytes, List.flatMap_nil, List.take_nil]
    | cons b bytes =>
      have hskip : 8 * (n + 1) = (bitsOf 8 b.toNat).length + 8 * n := by
        rw [length_bitsOf]
        omega
      rw [ofBytes_cons, hskip, List.take_length_add_append, ih, List.take_succ_cons, ofBytes_cons]

/-- The bytes of a number of 32 bits. -/
def numberBytes (n : Nat) : List UInt8 := [24, 16, 8, 0].map fun s => UInt8.ofNat (n >>> s)

theorem ofBytes_numberBytes (n : Nat) : ofBytes (numberBytes n) = bitsOf 32 n := by
  have hbyte : ∀ m, bitsOf 8 (UInt8.ofNat m).toNat = bitsOf 8 m := by
    intro m
    rw [UInt8.toNat_ofNat']
    exact bitsOf_mod 8 m
  have hbits : bitsOf 32 n = bitsOf 8 (n >>> 24) ++ (bitsOf 8 (n >>> 16) ++ (bitsOf 8 (n >>> 8)
      ++ bitsOf 8 n)) := by
    exact (bitsOf_add 8 24 n).trans (congrArg _ ((bitsOf_add 8 16 n).trans
      (congrArg _ (bitsOf_add 8 8 n))))
  rw [hbits]
  show bitsOf 8 _ ++ (bitsOf 8 _ ++ (bitsOf 8 _ ++ (bitsOf 8 _ ++ []))) = _
  rw [hbyte, hbyte, hbyte, hbyte, List.append_nil]
  rfl

/-- The padding of whole bytes. -/
def padBytes (bytes : List UInt8) : List UInt8 :=
  let length := 8 * bytes.length
  let zeros := (120 - (bytes.length + 1) % 64) % 64
  bytes ++ [(0x80 : UInt8)] ++ List.replicate zeros (0 : UInt8) ++ numberBytes (length >>> 32)
    ++ numberBytes length

theorem pad_ofBytes (bytes : List UInt8) : pad (ofBytes bytes) = ofBytes (padBytes bytes) := by
  have hzeros : ∀ n, ofBytes (List.replicate n 0) = List.replicate (8 * n) false := by
    intro n
    induction n with
    | zero => rfl
    | succ n ih =>
      rw [List.replicate_succ, ofBytes_cons, ih, Nat.mul_succ, Nat.add_comm, List.replicate_add]
      rfl
  have hcount : zeros (8 * bytes.length) = 7 + 8 * ((120 - (bytes.length + 1) % 64) % 64) := by
    unfold zeros
    omega
  have hmark : ofBytes [0x80] = [true] ++ List.replicate 7 false := by decide
  unfold pad padBytes
  rw [length_ofBytes, hcount, ofBytes_append, ofBytes_append, ofBytes_append, ofBytes_append,
    ofBytes_numberBytes, ofBytes_numberBytes, hzeros, hmark, List.replicate_add,
    show 64 = 32 + 32 from rfl, bitsOf_add]
  simp only [List.append_assoc]

theorem foldl_value (bits : Bits) (n : Nat) :
    bits.foldl (fun n b => 2 * n + b.toNat) n = n * 2 ^ bits.length + value bits := by
  induction bits generalizing n with
  | nil => exact (Nat.mul_one n).symm
  | cons b bits ih =>
    rw [value, List.foldl_cons, List.foldl_cons, ih, ih, List.length_cons, pow_succ]
    have hfirst : (2 * n + b.toNat) * 2 ^ bits.length
        = n * (2 ^ bits.length * 2) + (2 * 0 + b.toNat) * 2 ^ bits.length := by
      rw [Nat.add_mul, Nat.mul_zero, Nat.zero_add, Nat.mul_comm 2 n, Nat.mul_assoc,
        Nat.mul_comm 2 (2 ^ bits.length)]
    omega

/-- Reading the bits of a number gives it back, as far as the bits go. -/
theorem value_bitsOf (width n : Nat) : value (bitsOf width n) = n % 2 ^ width := by
  induction width with
  | zero => exact (Nat.mod_one n).symm
  | succ width ih =>
    rw [bitsOf_succ, value, List.foldl_cons, foldl_value, ih, length_bitsOf,
      Nat.mod_pow_succ, Nat.mul_zero, Nat.zero_add, Nat.toNat_testBit, Nat.mul_comm, Nat.add_comm]

/-- Four bytes, the high one first. -/
theorem wordOf_ofBytes (b0 b1 b2 b3 : UInt8) :
    wordOf (ofBytes [b0, b1, b2, b3]) = BitVec.ofNat 32 b0.toNat <<< 24
      ||| BitVec.ofNat 32 b1.toNat <<< 16 ||| BitVec.ofNat 32 b2.toNat <<< 8
      ||| BitVec.ofNat 32 b3.toNat := by
  have h0 := b0.toNat_lt
  have h1 := b1.toNat_lt
  have h2 := b2.toNat_lt
  have h3 := b3.toNat_lt
  let n := ((b0.toNat * 256 + b1.toNat) * 256 + b2.toNat) * 256 + b3.toNat
  have hbytes : numberBytes n = [b0, b1, b2, b3] := by
    have hbyte : ∀ (b : UInt8) (s : Nat), n / 2 ^ s % 256 = b.toNat →
        UInt8.ofNat (n >>> s) = b := by
      intro b s h
      apply UInt8.toNat_inj.mp
      rw [UInt8.toNat_ofNat', Nat.shiftRight_eq_div_pow]
      exact h
    unfold numberBytes
    rw [List.map_cons, List.map_cons, List.map_cons, List.map_cons, hbyte b0 24 (by omega),
      hbyte b1 16 (by omega), hbyte b2 8 (by omega), hbyte b3 0 (by omega), List.map_nil]
  rw [← hbytes, ofBytes_numberBytes, wordOf, value_bitsOf]
  apply BitVec.eq_of_toNat_eq
  -- The four bytes do not overlap, so that setting their bits is adding them.
  have hor : b0.toNat <<< 24 ||| b1.toNat <<< 16 ||| b2.toNat <<< 8 ||| b3.toNat = n := by
    have hpair : ∀ {a b : Nat}, b < 256 → a <<< 8 ||| b = a * 256 + b := fun {a b} hb => by
      rw [← Nat.shiftLeft_add_eq_or_of_lt (i := 8) hb, Nat.shiftLeft_eq]
    have hhigh : b0.toNat <<< 24 ||| b1.toNat <<< 16 = (b0.toNat <<< 8 ||| b1.toNat) <<< 16 := by
      rw [Nat.shiftLeft_or_distrib, ← Nat.shiftLeft_add]
    have hmid : (b0.toNat <<< 8 ||| b1.toNat) <<< 16 ||| b2.toNat <<< 8
        = ((b0.toNat <<< 8 ||| b1.toNat) <<< 8 ||| b2.toNat) <<< 8 := by
      rw [Nat.shiftLeft_or_distrib (i := 8) (b := b2.toNat), ← Nat.shiftLeft_add]
    rw [hhigh, hmid, hpair h3, hpair h2, hpair h1]
  have hshift : ∀ {b s : Nat}, b < 256 → s ≤ 24 → b <<< s % 2 ^ 32 = b <<< s := by
    intro b s hb hs
    refine Nat.mod_eq_of_lt ?_
    rw [Nat.shiftLeft_eq]
    calc b * 2 ^ s < 256 * 2 ^ s := Nat.mul_lt_mul_of_pos_right hb (Nat.two_pow_pos s)
      _ ≤ 256 * 2 ^ 24 := Nat.mul_le_mul_left _ (Nat.pow_le_pow_right (by decide) hs)
      _ = 2 ^ 32 := by decide
  have hsmall : ∀ {b : Nat}, b < 256 → b % 2 ^ 32 = b := fun hb => Nat.mod_eq_of_lt (by omega)
  rw [BitVec.toNat_or, BitVec.toNat_or, BitVec.toNat_or, BitVec.toNat_shiftLeft,
    BitVec.toNat_shiftLeft, BitVec.toNat_shiftLeft, BitVec.toNat_ofNat, BitVec.toNat_ofNat,
    BitVec.toNat_ofNat, BitVec.toNat_ofNat, BitVec.toNat_ofNat, Nat.mod_mod, hsmall h0, hsmall h1,
    hsmall h2, hsmall h3, hshift h0 (by decide), hshift h1 (by decide), hshift h2 (by decide), hor]
  exact Nat.mod_eq_of_lt (by omega)

theorem length_padBytes (bytes : List UInt8) : ∃ n, (padBytes bytes).length = 64 * n := by
  refine ⟨((bytes.length + 1) + (120 - (bytes.length + 1) % 64) % 64 + 8) / 64, ?_⟩
  have hwords : ∀ n, (numberBytes n).length = 4 := fun _ => rfl
  rw [padBytes, List.length_append, List.length_append, List.length_append, List.length_append,
    hwords, hwords, List.length_replicate, List.length_singleton]
  omega

theorem blockCount_ofBytes (bytes : List UInt8) :
    blockCount (ofBytes bytes) = (padBytes bytes).length / 64 := by
  rw [blockCount, pad_ofBytes, length_ofBytes]
  omega

/-- A word of the message, from its four bytes. -/
theorem message_ofBytes (bytes : List UInt8) {i t : Nat} (h : 64 * i + 4 * t + 4
    ≤ (padBytes bytes).length) :
    message (ofBytes bytes) i t
      = BitVec.ofNat 32 ((padBytes bytes).getD (64 * i + 4 * t) 0).toNat <<< 24
      ||| BitVec.ofNat 32 ((padBytes bytes).getD (64 * i + 4 * t + 1) 0).toNat <<< 16
      ||| BitVec.ofNat 32 ((padBytes bytes).getD (64 * i + 4 * t + 2) 0).toNat <<< 8
      ||| BitVec.ofNat 32 ((padBytes bytes).getD (64 * i + 4 * t + 3) 0).toNat := by
  rw [message, pad_ofBytes, show 512 * i + 32 * t = 8 * (64 * i + 4 * t) by omega, drop_ofBytes,
    show (ofBytes _).take 32 = _ from take_ofBytes 4 _]
  have hfour : ((padBytes bytes).drop (64 * i + 4 * t)).take 4
      = [(padBytes bytes).getD (64 * i + 4 * t) 0, (padBytes bytes).getD (64 * i + 4 * t + 1) 0,
        (padBytes bytes).getD (64 * i + 4 * t + 2) 0,
        (padBytes bytes).getD (64 * i + 4 * t + 3) 0] := by
    generalize 64 * i + 4 * t = at' at *
    have hget : ∀ {j}, j < at' + 4 → (padBytes bytes).drop j
        = (padBytes bytes).getD j 0 :: (padBytes bytes).drop (j + 1) := by
      intro j hj
      have hlt : j < (padBytes bytes).length := by omega
      rw [List.drop_eq_getElem_cons hlt, List.getD_eq_getElem?_getD, List.getElem?_eq_getElem hlt]
      rfl
    rw [hget (by omega), hget (j := at' + 1) (by omega), hget (j := at' + 1 + 1) (by omega),
      hget (j := at' + 1 + 1 + 1) (by omega)]
    rfl
  rw [hfour, wordOf_ofBytes]

end QsBitwarden.Sha
